import Talon.Metadata.Links

/-!
# Marks of corruption

Coordinators commit the transactions of the link builders, prepared at any time, beside transactions
that mark inode records as corrupt.  A builder writes the whole record, always unmarked, and none of
its preconditions is about the mark.
-/

set_option autoImplicit false

namespace Talon.Metadata

open Option Function

/-- A call of a link builder, or a transaction whose inode records are all marked. -/
inductive LinkAction
  | beginPromotion (t : LinkTransition)
  | commitPromotion (t : LinkTransition) (observed_revision : Nat)
  | abortPromotion (t : LinkTransition)
  | addLink (ns : NamespaceId) (path : String) (inode : InodeNumber) (current : LinkCount)
      (observed_revision : Nat)
  | removeLink (ns : NamespaceId) (path : String) (inode : InodeNumber) (current : LinkCount)
      (observed_revision : Nat)
  | commitDemotion (ns : NamespaceId) (removed_path remaining_path : String) (inode : InodeNumber)
      (observed_revision : Nat)
  | mark (tx : Transaction)

def Operation.recordIs (p : InodeRecord → Bool) : Operation → Bool
  | .putInode record => p record
  | _ => true

def LinkAction.transaction : LinkAction → Option Transaction
  | .beginPromotion t => (Metadata.beginPromotion t).toOption
  | .commitPromotion t revision => some (Metadata.commitPromotion t revision)
  | .abortPromotion t => some (Metadata.abortPromotion t)
  | .addLink ns path inode current revision => Metadata.addLink ns path inode current revision
  | .removeLink ns path inode current revision =>
    (Metadata.removeLink ns path inode current revision).toOption
  | .commitDemotion ns removed remaining inode revision =>
    some (Metadata.commitDemotion ns removed remaining inode revision)
  | .mark tx => if tx.operations.all (·.recordIs (·.corrupt)) then some tx else none

namespace State

def perform (s : State) (a : LinkAction) : Option State :=
  a.transaction.bind fun tx => (s.commitLocked true tx).toOption.map Prod.snd

def isCorrupt (s : State) (ns : NamespaceId) (inode : Nat) : Bool :=
  ((s.namespaces ns).inodes inode).any (·.corrupt)

/-- The inode that a link is added to or removed from, or that a promotion creates, is not marked.
-/
def Spares (s : State) : LinkAction → Prop
  | .commitPromotion t _ => s.isCorrupt t.ns t.inode.value = false
  | .addLink ns _ inode _ _ | .removeLink ns _ inode _ _ => s.isCorrupt ns inode.value = false
  | _ => True

variable {s t : State} {ns : NamespaceId} {inode : Nat}

variable {r : InodeRecord}

theorem inodes_apply {op : Operation}
    (held : ((s.apply op).1.namespaces ns).inodes inode = some r) :
    (op = .putInode r ∧ r.ns = ns ∧ r.inode.value = inode) ∨
      (s.namespaces ns).inodes inode = some r := by
  cases op with
  | putInode =>
    simp only [apply, modify, update_apply] at held
    split at held
    · rename_i same
      simp only [update_apply] at held
      split at held
      · rename_i here
        cases held
        exact .inl ⟨rfl, same.symm, here.symm⟩
      · exact .inr (same ▸ held)
    · exact .inr held
  | removeInode =>
    simp only [apply, modify, update_apply] at held
    split at held
    · rename_i same
      simp only [update_apply] at held
      split at held
      · cases held
      · exact .inr (same ▸ held)
    · exact .inr held
  | putPathIndex | removePathIndex | putTransition | removeTransition | advanceMappingRevision =>
    -- These write other maps of the namespace.
    refine .inr ?_
    simp only [apply, modify, update_apply] at held
    split at held <;> simp_all

theorem corrupt_applyAll {ops : List Operation} {revision : Option Nat}
    (stores : ∀ r, .putInode r ∈ ops → r.ns = ns → r.inode.value = inode → r.corrupt = true)
    (marked : ∀ r, (s.namespaces ns).inodes inode = some r → r.corrupt = true) :
    ∀ r, ((s.applyAll revision ops).1.namespaces ns).inodes inode = some r → r.corrupt = true := by
  induction ops generalizing s revision with
  | nil => exact marked
  | cons op _ ih =>
    refine ih (fun r mem => stores r (List.mem_cons_of_mem op mem)) fun r held => ?_
    obtain ⟨rfl, same, here⟩ | before := inodes_apply held
    · exact stores r List.mem_cons_self same here
    · exact marked r before

variable {a : LinkAction}

/-- What the builders store: a promotion and a link write the record of their own inode, unmarked.
-/
theorem Spares.stores {tx : Transaction} (spares : s.Spares a)
    (built : a.transaction = some tx) (mem : .putInode r ∈ tx.operations) :
    r.corrupt = true ∨ s.isCorrupt r.ns r.inode.value = false := by
  cases a with
  | beginPromotion t =>
    simp only [LinkAction.transaction, Metadata.beginPromotion] at built
    split at built <;> cases built
    simp at mem
  | commitPromotion t _ =>
    cases built
    obtain rfl : r = ⟨t.ns, t.inode, .promoted, false⟩ := by simpa [Metadata.commitPromotion]
      using mem
    exact .inr spares
  | abortPromotion t =>
    cases built
    simp [Metadata.abortPromotion] at mem
  | addLink ns _ inode =>
    obtain ⟨count, -, rfl⟩ := map_eq_some_iff.mp built
    obtain rfl : r = ⟨ns, inode, count, false⟩ := by simpa using mem
    exact .inr spares
  | removeLink ns _ inode =>
    simp only [LinkAction.transaction, Metadata.removeLink] at built
    split at built <;> cases built
    rename_i remaining _
    obtain rfl : r = ⟨ns, inode, remaining, false⟩ := by simpa using mem
    exact .inr spares
  | commitDemotion =>
    cases built
    simp [Metadata.commitDemotion] at mem
  | mark tx =>
    simp only [LinkAction.transaction] at built
    split at built <;> cases built
    rename_i all
    exact .inl (List.all_eq_true.mp all _ mem)

theorem corrupt_perform (spares : s.Spares a) (done : s.perform a = some t)
    (marked : s.isCorrupt ns inode = true) (kept : ((t.namespaces ns).inodes inode).isSome = true) :
    t.isCorrupt ns inode = true := by
  obtain ⟨tx, built, rest⟩ := bind_eq_some_iff.mp done
  obtain ⟨⟨out, t'⟩, committed, rfl⟩ := map_eq_some_iff.mp rest
  have accepted : s.commitLocked true tx = .ok (out, t') := by
    cases result : s.commitLocked true tx with
    | ok => simpa [Except.toOption, result] using committed
    | error => simp [Except.toOption, result] at committed
  obtain ⟨_, applied⟩ := commitLocked_ok accepted
  obtain ⟨_, held, corrupt⟩ := (any_eq_true ..).mp marked
  have stores : ∀ r, .putInode r ∈ tx.operations → r.ns = ns → r.inode.value = inode →
      r.corrupt = true := by
    intro r mem same same'
    refine (spares.stores built mem).resolve_right ?_
    rw [same, same', marked]
    decide
  have after := @corrupt_applyAll s ns inode tx.operations none stores fun r found => by
    rw [held] at found
    cases found
    exact corrupt
  obtain ⟨r, found⟩ := isSome_iff_exists.mp kept
  rw [isCorrupt, found]
  exact after r (applied ▸ found)

/-- While the record exists, its mark stays, in every run whose transactions spare the marked
records. -/
theorem corrupt_stays_when_spared (ns : NamespaceId) (inode : Nat)
    (run : Relation.ReflTransGen (fun s t => (∃ a, s.Spares a ∧ s.perform a = some t) ∧
      ((t.namespaces ns).inodes inode).isSome = true) s t) (marked : s.isCorrupt ns inode = true) :
    t.isCorrupt ns inode = true := by
  refine @Transition.kept_by_run _ _ (fun s => s.isCorrupt ns inode = true) _ _ ?_ marked run
  rintro s t ⟨⟨a, spares, done⟩, kept⟩ before
  exact corrupt_perform spares done before kept

def sampleMarking : List LinkAction :=
  [.beginPromotion World.firstPromotion, .commitPromotion World.firstPromotion 1,
    .mark ⟨[], [.putInode ⟨World.sampleNs, ⟨9, Nat.succ_ne_zero 8⟩, .promoted, true⟩]⟩]

def sampleOther : LinkAction := .addLink World.sampleNs "data/d.bin"
    ⟨10, Nat.succ_ne_zero 9⟩ .promoted 2

def sampleCorrupt : Option State := sampleMarking.foldlM perform .empty

theorem corrupt_stays_beside_other_link : ∃ s t, sampleCorrupt = some s ∧
    s.perform sampleOther = some t ∧ t.isCorrupt World.sampleNs 9 = true := by
  refine ⟨sampleCorrupt.get rfl, _, rfl, rfl, ?_⟩
  exact corrupt_stays_when_spared (s := sampleCorrupt.get rfl) World.sampleNs 9
    (.single ⟨⟨sampleOther, rfl, rfl⟩, rfl⟩) rfl

/-- A third link to the marked inode clears its mark. -/
theorem addLink_clears_mark :
    (sampleCorrupt.map fun s : State => s.isCorrupt World.sampleNs 9) = some true ∧
      ((sampleCorrupt.bind fun s : State =>
        s.perform (.addLink World.sampleNs "data/d.bin" ⟨9, Nat.succ_ne_zero 8⟩ .promoted 2)).map
          fun s : State => ((s.namespaces World.sampleNs).inodes 9).map (·.corrupt)) =
        some (some false) :=
  ⟨rfl, rfl⟩

end State

end Talon.Metadata
