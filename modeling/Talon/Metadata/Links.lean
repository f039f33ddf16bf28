import Mathlib.Data.Set.Card
import Talon.Lib.PartialMap
import Talon.Lib.Transition
import Talon.Metadata.Store

/-!
# Hard-link promotion, link counting and demotion

The transactions of the hard-link state machine, coordinators that commit them in any order from
what they read of earlier states, and the agreement of inode records with the path index.
-/

set_option autoImplicit false

namespace Talon.Metadata

open Function Option List

def beginPromotion (t : LinkTransition) : MetadataResult Transaction :=
  if t.state ≠ .preparing then
    .error (.invalidRecord (match t.state with
      | .committed => "a promotion opens in Preparing, not Committed"
      | _ => "a promotion opens in Preparing, not Aborted"))
  else .ok {
    preconditions := [
      .mappingRevisionIs t.ns t.expected_mapping_revision,
      .pathIsUnmapped t.ns t.source_path,
      .pathIsUnmapped t.ns t.new_path,
      .transitionAbsent t.ns t.operation_id]
    operations := [.putTransition t, .advanceMappingRevision t.ns] }

def commitPromotion (t : LinkTransition) (observed_revision : Nat) : Transaction where
  preconditions := [
    .transitionExists t.ns t.operation_id,
    .mappingRevisionIs t.ns observed_revision]
  operations := [
    .putPathIndex ⟨t.ns, t.source_path, t.inode⟩,
    .putPathIndex ⟨t.ns, t.new_path, t.inode⟩,
    .putInode ⟨t.ns, t.inode, .promoted, false⟩,
    .removeTransition t.ns t.operation_id,
    .advanceMappingRevision t.ns]

def abortPromotion (t : LinkTransition) : Transaction where
  preconditions := [.transitionExists t.ns t.operation_id]
  operations := [.removeTransition t.ns t.operation_id, .advanceMappingRevision t.ns]

def addLink (ns : NamespaceId) (new_path : String) (inode : InodeNumber) (current : LinkCount)
    (observed_revision : Nat) : Option Transaction :=
  current.increment.map fun count => {
    preconditions := [.mappingRevisionIs ns observed_revision, .pathIsUnmapped ns new_path]
    operations := [
      .putPathIndex ⟨ns, new_path, inode⟩,
      .putInode ⟨ns, inode, count, false⟩,
      .advanceMappingRevision ns] }

def removeLink (ns : NamespaceId) (path : String) (inode : InodeNumber) (current : LinkCount)
    (observed_revision : Nat) : MetadataResult Transaction :=
  match current.decrement with
  | none => .error
      (.invalidRecord "removing this link leaves one: use commit_demotion (ADR 0003 §5)")
  | some remaining => .ok {
      preconditions := [.mappingRevisionIs ns observed_revision, .pathResolvesTo ns path inode]
      operations := [
        .removePathIndex ns path,
        .putInode ⟨ns, inode, remaining, false⟩,
        .advanceMappingRevision ns] }

def commitDemotion (ns : NamespaceId) (removed_path remaining_path : String) (inode : InodeNumber)
    (observed_revision : Nat) : Transaction where
  preconditions := [
    .mappingRevisionIs ns observed_revision,
    .pathResolvesTo ns removed_path inode,
    .pathResolvesTo ns remaining_path inode]
  operations := [
    .removePathIndex ns removed_path,
    .removePathIndex ns remaining_path,
    .removeInode ns inode,
    .advanceMappingRevision ns]

namespace NamespaceState

/-- What each transaction makes of its namespace. -/
def opened (n : NamespaceState) (t : LinkTransition) : NamespaceState :=
  { n with
    transitions := Function.update n.transitions t.operation_id (some t)
    mapping_revision := n.mapping_revision + 1 }

def promoted (n : NamespaceState) (t : LinkTransition) : NamespaceState where
  mapping_revision := n.mapping_revision + 1
  paths := Function.update (Function.update n.paths t.source_path (some t.inode)) t.new_path
    (some t.inode)
  inodes := Function.update n.inodes t.inode.value (some ⟨t.ns, t.inode, .promoted, false⟩)
  transitions := Function.update n.transitions t.operation_id none

def aborted (n : NamespaceState) (t : LinkTransition) : NamespaceState :=
  { n with
    transitions := Function.update n.transitions t.operation_id none
    mapping_revision := n.mapping_revision + 1 }

def relinked (n : NamespaceState) (path : String) (target : Option InodeNumber)
    (record : InodeRecord) : NamespaceState :=
  { n with
    mapping_revision := n.mapping_revision + 1
    paths := Function.update n.paths path target
    inodes := Function.update n.inodes record.inode.value (some record) }

def demoted (n : NamespaceState) (removed remaining : String) (inode : InodeNumber) :
    NamespaceState :=
  { n with
    mapping_revision := n.mapping_revision + 1
    paths := Function.update (Function.update n.paths removed none) remaining none
    inodes := Function.update n.inodes inode.value none }

end NamespaceState

namespace LinkCount

variable {count other : LinkCount}

theorem value_of_increment (done : count.increment = some other) :
    other.value = count.value + 1 := by
  unfold increment at done
  split at done
  · rw [← some.inj done]
  · cases done

theorem value_of_decrement (done : count.decrement = some other) :
    other.value + 1 = count.value := by
  unfold decrement at done
  split at done
  · rw [← some.inj done]
    dsimp only
    omega
  · cases done

end LinkCount

variable {record : InodeRecord}

namespace NamespaceState

def names (n : NamespaceState) (i : InodeNumber) : Set String := {p | n.paths p = some i}

/-- There is a record for exactly the inodes that some path maps to, and it counts those paths. -/
structure Consistent (n : NamespaceState) : Prop where
  recorded : ∀ i : InodeNumber, (∃ record, n.inodes i.value = some record) ↔ (n.names i).Nonempty
  counted : ∀ (i : InodeNumber) record, n.inodes i.value = some record →
    record.link_count.value = (n.names i).ncard

/-- Besides, the inode of an open promotion is not in use yet and belongs to no other one. -/
structure Linked (n : NamespaceState) (used : Set InodeNumber) : Prop where
  consistent : n.Consistent
  named_used : ∀ i, (n.names i).Nonempty → i ∈ used
  pending_used : ∀ op t, n.transitions op = some t → t.inode ∈ used
  pending_free : ∀ op t, n.transitions op = some t → ¬ (n.names t.inode).Nonempty
  pending_distinct : ∀ op op' t t', n.transitions op = some t → n.transitions op' = some t' →
    t.inode = t'.inode → op = op'

variable {n : NamespaceState} {used : Set InodeNumber} {t : LinkTransition} {i : InodeNumber}
  {path : String}

theorem value_ne {i j : InodeNumber} (h : i ≠ j) : i.value ≠ j.value :=
  fun same => h (InodeNumber.ext same)

theorem linked_default : NamespaceState.default.Linked used where
  consistent := {
    recorded := by
      intro i
      constructor
      · intro ⟨_, absurd⟩
        cases absurd
      · intro ⟨p, absurd⟩
        cases absurd
    counted := fun _ _ absurd => nomatch absurd }
  named_used := fun _ ⟨_, absurd⟩ => nomatch absurd
  pending_used := fun _ _ absurd => nomatch absurd
  pending_free := fun _ _ absurd => nomatch absurd
  pending_distinct := fun _ _ _ _ absurd => nomatch absurd

variable (h : n.Linked used)
include h

theorem Linked.mono {more : Set InodeNumber} (sub : used ⊆ more) : n.Linked more :=
  { h with
    named_used := fun i found => sub (h.named_used i found)
    pending_used := fun op t found => sub (h.pending_used op t found) }

theorem Linked.finite (found : n.inodes i.value = some record) : (n.names i).Finite := by
  apply Set.finite_of_ncard_ne_zero
  rw [← h.consistent.counted i record found]
  have many := record.link_count.multiple
  omega

theorem Linked.opened (fresh : t.inode ∉ used) : (n.opened t).Linked (insert t.inode used) where
  consistent := ⟨h.consistent.recorded, h.consistent.counted⟩
  named_used := fun i found => .inr (h.named_used i found)
  pending_used := PartialMap.forall_insert (.inl rfl)
    fun op t' _ found => .inr (h.pending_used op t' found)
  pending_free := PartialMap.forall_insert (fun named => fresh (h.named_used _ named))
    fun op t' _ found => h.pending_free op t' found
  pending_distinct := by
    intro op op' t₁ t₂ first second same
    simp only [NamespaceState.opened, update_apply] at first second
    split at first
    · rename_i left
      split at second
      · rename_i right
        rw [left, right]
      · obtain rfl := some.inj first
        exact absurd (same ▸ h.pending_used op' t₂ second) fresh
    · split at second
      · obtain rfl := some.inj second
        exact absurd (same.symm ▸ h.pending_used op t₁ first) fresh
      · exact h.pending_distinct op op' t₁ t₂ first second same

theorem Linked.aborted : (n.aborted t).Linked used where
  consistent := ⟨h.consistent.recorded, h.consistent.counted⟩
  named_used := h.named_used
  pending_used := fun op t' found => h.pending_used op t' (PartialMap.of_erase found).2
  pending_free := fun op t' found => h.pending_free op t' (PartialMap.of_erase found).2
  pending_distinct := fun op op' t₁ t₂ first second =>
    h.pending_distinct op op' t₁ t₂ (PartialMap.of_erase first).2 (PartialMap.of_erase second).2

theorem Linked.changed {n' : NamespaceState} (mem : i ∈ used)
    (others : ∀ j, j ≠ i → n'.names j = n.names j ∧ n'.inodes j.value = n.inodes j.value)
    (recorded : (∃ record, n'.inodes i.value = some record) ↔ (n'.names i).Nonempty)
    (counted : ∀ record, n'.inodes i.value = some record →
      record.link_count.value = (n'.names i).ncard)
    (pending : ∀ op t, n'.transitions op = some t → n.transitions op = some t ∧ t.inode ≠ i) :
    n'.Linked used where
  consistent := {
    recorded := by
      intro j
      by_cases same : j = i
      · exact same ▸ recorded
      · rw [(others j same).1, (others j same).2]
        exact h.consistent.recorded j
    counted := by
      intro j record stored
      by_cases same : j = i
      · subst same
        exact counted record stored
      · rw [(others j same).1]
        rw [(others j same).2] at stored
        exact h.consistent.counted j record stored }
  named_used := by
    intro j named
    by_cases same : j = i
    · exact same ▸ mem
    · rw [(others j same).1] at named
      exact h.named_used j named
  pending_used := fun op t found => h.pending_used op t (pending op t found).1
  pending_free := by
    intro op t found
    obtain ⟨before, other⟩ := pending op t found
    rw [(others _ other).1]
    exact h.pending_free op t before
  pending_distinct := fun op op' t t' first second =>
    h.pending_distinct op op' t t' (pending op t first).1 (pending op' t' second).1

omit h

theorem names_update (paths : String → Option InodeNumber) (target : Option InodeNumber)
    (i : InodeNumber) : {p | update paths path target p = some i} =
      if target = some i then insert path {p | paths p = some i} else {p | paths p = some i} \
        {path} := by
  ext p
  by_cases here : p = path
  · subst here
    by_cases mapped : target = some i <;> simp [mapped]
  · by_cases mapped : target = some i <;> simp [mapped, here]

theorem names_promoted_self (n : NamespaceState) (t : LinkTransition)
    (free : ¬ (n.names t.inode).Nonempty) :
    (n.promoted t).names t.inode = {t.source_path, t.new_path} := by
  have none : {p | n.paths p = some t.inode} = ∅ := Set.not_nonempty_iff_eq_empty.mp free
  unfold names NamespaceState.promoted
  rw [names_update, if_pos rfl, names_update, if_pos rfl, none, insert_empty_eq, Set.pair_comm]

theorem names_promoted_of_ne {n : NamespaceState} {t : LinkTransition} (other : i ≠ t.inode)
    (source : n.paths t.source_path = none) (target : n.paths t.new_path = none) :
    (n.promoted t).names i = n.names i := by
  have elsewhere : some t.inode ≠ some i := fun same => other (some.inj same).symm
  unfold names NamespaceState.promoted
  rw [names_update, if_neg elsewhere, names_update, if_neg elsewhere, Set.sdiff_singleton_eq_self,
    Set.sdiff_singleton_eq_self]
  · simp [source]
  · simp [target]

include h in
theorem Linked.promoted (found : n.transitions t.operation_id = some t)
    (distinct : t.source_path ≠ t.new_path) (source : n.paths t.source_path = none)
    (target : n.paths t.new_path = none) : (n.promoted t).Linked used := by
  have mine := names_promoted_self n t (h.pending_free _ _ found)
  refine h.changed (h.pending_used _ _ found)
    (fun j other => ⟨names_promoted_of_ne other source target,
      update_of_ne (value_ne other) ..⟩) ?_ (fun record stored => ?_) fun op t' left => ?_
  · rw [mine]
    simp [NamespaceState.promoted]
  · simp only [NamespaceState.promoted, update_self] at stored
    rw [mine, Set.ncard_pair distinct, ← some.inj stored]
    rfl
  · -- The inode of another open promotion is not the one that was published.
    obtain ⟨apart, before⟩ := PartialMap.of_erase left
    exact ⟨before, fun same => apart (h.pending_distinct op t.operation_id t' t before found same)⟩

theorem names_relinked (n : NamespaceState) (target : Option InodeNumber) (i : InodeNumber) :
    (n.relinked path target record).names i =
      if target = some i then insert path (n.names i) else n.names i \ {path} :=
  names_update n.paths target i

variable {old : InodeRecord}

include h

theorem Linked.relinked {target : Option InodeNumber}
    (known : n.inodes record.inode.value = some old)
    (mine : ∀ i, i ≠ record.inode → target ≠ some i ∧ path ∉ n.names i)
    (counts : record.link_count.value =
      ((n.relinked path target record).names record.inode).ncard) :
    (n.relinked path target record).Linked used := by
  have others : ∀ i, i ≠ record.inode → (n.relinked path target record).names i = n.names i := by
    intro i other
    obtain ⟨elsewhere, unnamed⟩ := mine i other
    rw [names_relinked, if_neg elsewhere]
    exact Set.sdiff_singleton_eq_self unnamed
  have named : ((n.relinked path target record).names record.inode).Nonempty := by
    apply Set.nonempty_of_ncard_ne_zero
    rw [← counts]
    have many := record.link_count.multiple
    omega
  have before := (h.consistent.recorded _).mp ⟨old, known⟩
  refine h.changed (h.named_used _ before)
    (fun j other => ⟨others j other, update_of_ne (value_ne other) ..⟩) ?_
    (fun stored found => ?_) fun op t found => ?_
  · simp only [named, iff_true]
    exact ⟨record, by simp [NamespaceState.relinked]⟩
  · simp only [NamespaceState.relinked, update_self] at found
    rw [← some.inj found]
    exact counts
  · exact ⟨found, fun same => h.pending_free op t found (same ▸ before)⟩

theorem Linked.added (ns : NamespaceId) {more : LinkCount} (known : n.inodes i.value = some old)
    (free : n.paths path = none) (value : more.value = old.link_count.value + 1) :
    (n.relinked path (some i) ⟨ns, i, more, false⟩).Linked used := by
  have unnamed : ∀ j, path ∉ n.names j := by
    intro j named
    have mapped : n.paths path = some j := named
    rw [free] at mapped
    cases mapped
  apply h.relinked known
  · intro j other
    exact ⟨fun same => other (some.inj same).symm, unnamed j⟩
  · rw [names_relinked, if_pos rfl, Set.ncard_insert_of_notMem (unnamed i) (h.finite known),
      ← h.consistent.counted i old known]
    exact value

theorem Linked.removed (ns : NamespaceId) {fewer : LinkCount} (known : n.inodes i.value = some old)
    (mapped : n.paths path = some i) (value : fewer.value + 1 = old.link_count.value) :
    (n.relinked path none ⟨ns, i, fewer, false⟩).Linked used := by
  apply h.relinked known
  · intro j other
    refine ⟨nofun, fun named => other ?_⟩
    have also : n.paths path = some j := named
    rw [mapped] at also
    exact (some.inj also).symm
  · have named : path ∈ n.names i := mapped
    have less := Set.ncard_sdiff_singleton_add_one named (h.finite known)
    rw [← h.consistent.counted i old known, ← value] at less
    rw [names_relinked, if_neg nofun]
    exact (Nat.succ.inj less).symm

omit h

theorem names_demoted {removed remaining : String} (n : NamespaceState) (i j : InodeNumber) :
    (n.demoted removed remaining i).names j = n.names j \ {removed, remaining} := by
  unfold names NamespaceState.demoted
  rw [names_update, if_neg nofun, names_update, if_neg nofun, sdiff_sdiff]
  rfl

include h in
theorem Linked.demoted {removed remaining : String}
    (known : n.inodes i.value = some old) (two : old.link_count.value = 2)
    (distinct : removed ≠ remaining) (first : n.paths removed = some i)
    (second : n.paths remaining = some i) : (n.demoted removed remaining i).Linked used := by
  -- The two paths are all there are.
  have all : n.names i = {removed, remaining} := by
    symm
    apply Set.eq_of_subset_of_ncard_le _ _ (h.finite known)
    · intro p mem
      rcases mem with rfl | rfl
      · exact first
      · exact second
    · rw [← h.consistent.counted i old known, two, Set.ncard_pair distinct]
  have gone : (n.demoted removed remaining i).names i = ∅ := by
    rw [names_demoted, all, Set.sdiff_self]
  have others : ∀ j, j ≠ i → (n.demoted removed remaining i).names j = n.names j := by
    intro j other
    rw [names_demoted]
    apply Disjoint.sdiff_eq_left
    rw [Set.disjoint_right]
    intro p mem named
    have mapped : n.paths p = some i := by
      rcases mem with rfl | rfl
      · exact first
      · exact second
    have also : n.paths p = some j := named
    rw [mapped] at also
    exact other (some.inj also).symm
  refine h.changed (h.named_used _ ⟨removed, first⟩)
    (fun j other => ⟨others j other, update_of_ne (value_ne other) ..⟩) ?_
    (fun record stored => ?_) fun op t found => ?_
  · rw [gone]
    simp [NamespaceState.demoted]
  · simp [NamespaceState.demoted] at stored
  · exact ⟨found, fun same => h.pending_free op t found ⟨removed, same ▸ first⟩⟩

end NamespaceState

structure World where
  now : State
  past : List State
  used : NamespaceId → Set InodeNumber

namespace World

def start : World := ⟨.empty, [], fun _ => ∅⟩

def next (w : World) (s : State) : World := { w with now := s, past := w.now :: w.past }

def use (w : World) (ns : NamespaceId) (inode : InodeNumber) : World :=
  { w with used := Function.update w.used ns (insert inode (w.used ns)) }

/-- A transaction that a coordinator committed, built from what it read in a state `seen` of the
past or the present.  `Allowed` restricts the promotions that are committed. -/
inductive Step (Allowed : State → LinkTransition → Prop) : World → World → Prop
  | beginPromotion {w t tx out s} (fresh : t.inode ∉ w.used t.ns)
      (built : beginPromotion t = .ok tx) (done : w.now.commitLocked true tx = .ok (out, s)) :
      Step Allowed w ((w.use t.ns t.inode).next s)
  | commitPromotion {w t out s seen} (allowed : Allowed w.now t) (read : seen ∈ w.now :: w.past)
      (found : (seen.namespaces t.ns).transitions t.operation_id = some t)
      (done : w.now.commitLocked true
        (commitPromotion t (seen.namespaces t.ns).mapping_revision) = .ok (out, s)) :
      Step Allowed w (w.next s)
  | abortPromotion {w t out s seen} (read : seen ∈ w.now :: w.past)
      (found : (seen.namespaces t.ns).transitions t.operation_id = some t)
      (done : w.now.commitLocked true (abortPromotion t) = .ok (out, s)) :
      Step Allowed w (w.next s)
  | addLink {w ns path inode record tx out s seen} (read : seen ∈ w.now :: w.past)
      (found : (seen.namespaces ns).inodes inode.value = some record)
      (built : addLink ns path inode record.link_count (seen.namespaces ns).mapping_revision =
        some tx)
      (done : w.now.commitLocked true tx = .ok (out, s)) : Step Allowed w (w.next s)
  | removeLink {w ns path inode record tx out s seen} (read : seen ∈ w.now :: w.past)
      (found : (seen.namespaces ns).inodes inode.value = some record)
      (built : removeLink ns path inode record.link_count (seen.namespaces ns).mapping_revision =
        .ok tx)
      (done : w.now.commitLocked true tx = .ok (out, s)) : Step Allowed w (w.next s)
  /-- The two paths of an inode with two links. -/
  | commitDemotion {w ns removed remaining inode record out s seen} (read : seen ∈ w.now :: w.past)
      (found : (seen.namespaces ns).inodes inode.value = some record)
      (two : record.link_count.value = 2) (distinct : removed ≠ remaining)
      (first : (seen.namespaces ns).paths removed = some inode)
      (second : (seen.namespaces ns).paths remaining = some inode)
      (done : w.now.commitLocked true
        (commitDemotion ns removed remaining inode (seen.namespaces ns).mapping_revision) =
          .ok (out, s)) : Step Allowed w (w.next s)

/-- Both paths of the promotion are still unmapped, and they are two. -/
def Unclaimed (s : State) (t : LinkTransition) : Prop :=
  t.source_path ≠ t.new_path ∧ (s.namespaces t.ns).paths t.source_path = none ∧
    (s.namespaces t.ns).paths t.new_path = none

/-- Every namespace is linked, and its mapping revision tells its states apart. -/
structure Sound (w : World) : Prop where
  linked : ∀ ns, (w.now.namespaces ns).Linked (w.used ns)
  older : ∀ seen ∈ w.past, ∀ ns,
    (seen.namespaces ns).mapping_revision ≤ (w.now.namespaces ns).mapping_revision
  same : ∀ seen ∈ w.past, ∀ ns,
    (seen.namespaces ns).mapping_revision = (w.now.namespaces ns).mapping_revision →
      seen.namespaces ns = w.now.namespaces ns

variable {w : World} {s seen : State} {ns : NamespaceId} {n : NamespaceState}

theorem Sound.current (h : w.Sound) (read : seen ∈ w.now :: w.past)
    (revision : (w.now.namespaces ns).mapping_revision = (seen.namespaces ns).mapping_revision) :
    seen.namespaces ns = w.now.namespaces ns := by
  rcases mem_cons.mp read with rfl | old
  · rfl
  · exact h.same seen old ns revision.symm

theorem Sound.next (h : w.Sound) (changed : s.namespaces = update w.now.namespaces ns n)
    (advanced : n.mapping_revision = (w.now.namespaces ns).mapping_revision + 1)
    (linked : n.Linked (w.used ns)) : (w.next s).Sound := by
  have here : s.namespaces ns = n := by rw [changed, update_self]
  have elsewhere : ∀ other, other ≠ ns → s.namespaces other = w.now.namespaces other := by
    intro other apart
    rw [changed, update_of_ne apart]
  have before : ∀ seen ∈ w.now :: w.past, ∀ other,
      (seen.namespaces other).mapping_revision ≤
        (w.now.namespaces other).mapping_revision := by
    intro seen mem other
    rcases mem_cons.mp mem with rfl | old
    · exact Nat.le_refl _
    · exact h.older seen old other
  exact {
    linked := by
      intro other
      by_cases same : other = ns
      · subst same
        exact (congrArg (NamespaceState.Linked · _) here).mpr linked
      · exact (congrArg (NamespaceState.Linked · _) (elsewhere other same)).mpr (h.linked other)
    older := by
      intro seen mem other
      have bound := before seen mem other
      show _ ≤ (s.namespaces other).mapping_revision
      by_cases same : other = ns
      · subst same
        rw [here, advanced]
        exact Nat.le_succ_of_le bound
      · rw [elsewhere other same]
        exact bound
    same := by
      intro seen mem other revision
      have bound := before seen mem other
      have equal : (seen.namespaces other).mapping_revision =
          (s.namespaces other).mapping_revision := revision
      show _ = s.namespaces other
      by_cases same : other = ns
      · subst same
        rw [here, advanced] at equal
        omega
      · rw [elsewhere other same] at equal ⊢
        exact h.current mem equal.symm }

theorem Sound.use {inode : InodeNumber} (h : w.Sound) : (w.use ns inode).Sound :=
  { h with
    linked := by
      intro other
      apply (h.linked other).mono
      by_cases same : other = ns
      · subst same
        simp [World.use]
      · simp [World.use, same] }

/-- A commit applies to the state it read, as the revision tells, and keeps that one linked. -/
theorem Sound.step {w' : World} (step : Step Unclaimed w w') (h : w.Sound) : w'.Sound := by
  cases step with
  | beginPromotion fresh built done =>
    rename_i t tx out s
    obtain ⟨_, rest⟩ := Fallible.guard_ok built
    obtain rfl := Except.ok.inj rest
    have opened := (h.linked t.ns).opened fresh
    refine h.use.next (n := (w.now.namespaces t.ns).opened t)
      ((State.commitLocked_ok done).2.trans ?_) rfl ?_
    · simp [State.applyAll, State.apply, State.modify, World.use, NamespaceState.opened]
    · simpa [World.use] using opened
  | commitPromotion allowed read found done =>
    rename_i t out s seen
    obtain ⟨checked, applied⟩ := State.commitLocked_ok done
    obtain ⟨distinct, source, target⟩ := allowed
    rw [h.current read
      (State.mappingRevisionIs_ok (checked _ (by simp [Metadata.commitPromotion])))] at found
    refine h.next (applied.trans ?_) rfl ((h.linked t.ns).promoted found distinct source target)
    simp [Metadata.commitPromotion, State.applyAll, State.apply, State.modify,
      NamespaceState.promoted]
  | @abortPromotion t _ _ _ _ _ done =>
    refine h.next ((State.commitLocked_ok done).2.trans ?_) rfl ((h.linked t.ns).aborted (t := t))
    simp [Metadata.abortPromotion, State.applyAll, State.apply, State.modify,
      NamespaceState.aborted]
  | addLink read found built done =>
    rename_i ns path inode record tx out s seen
    obtain ⟨more, incremented, rfl⟩ := map_eq_some_iff.mp built
    obtain ⟨checked, applied⟩ := State.commitLocked_ok done
    rw [h.current read (State.mappingRevisionIs_ok (checked _ (by simp)))] at found
    have free : (w.now.namespaces ns).paths path = none := by
      simpa using (Fallible.guard_ok (checked (.pathIsUnmapped ns path) (by simp))).1
    refine h.next (applied.trans ?_) rfl
      ((h.linked ns).added ns found free (LinkCount.value_of_increment incremented))
    simp [State.applyAll, State.apply, State.modify, NamespaceState.relinked]
  | removeLink read found built done =>
    rename_i ns path inode record tx out s seen
    unfold Metadata.removeLink at built
    split at built
    · cases built
    · rename_i fewer decremented
      obtain rfl := Except.ok.inj built
      obtain ⟨checked, applied⟩ := State.commitLocked_ok done
      rw [h.current read (State.mappingRevisionIs_ok (checked _ (by simp)))] at found
      have mapped : (w.now.namespaces ns).paths path = some inode :=
        not_not.mp (Fallible.guard_ok (checked (.pathResolvesTo ns path inode) (by simp))).1
      refine h.next (applied.trans ?_) rfl
        ((h.linked ns).removed ns found mapped (LinkCount.value_of_decrement decremented))
      simp [State.applyAll, State.apply, State.modify, NamespaceState.relinked]
  | commitDemotion read found two distinct first second done =>
    rename_i ns removed remaining inode record out s seen
    obtain ⟨checked, applied⟩ := State.commitLocked_ok done
    rw [h.current read (State.mappingRevisionIs_ok (checked _ (by simp [Metadata.commitDemotion])))]
      at found first second
    refine h.next (applied.trans ?_) rfl ((h.linked ns).demoted found two distinct first second)
    simp [Metadata.commitDemotion, State.applyAll, State.apply, State.modify,
      NamespaceState.demoted]

/-- As long as every rename goes to a free path, paths and link counts agree. -/
theorem consistent_of_run (run : Relation.ReflTransGen (Step Unclaimed) start w)
    (ns : NamespaceId) : (w.now.namespaces ns).Consistent := by
  have sound : w.Sound := by
    refine Transition.kept_by_run (fun w _ step h => h.step step) ⟨?_, ?_, ?_⟩ run
    · exact fun _ => NamespaceState.linked_default
    · exact fun _ none => absurd none not_mem_nil
    · exact fun _ none => absurd none not_mem_nil
  exact (sound.linked ns).consistent

def sampleNs : NamespaceId := ⟨"ns", by decide⟩

def samplePromotion (operation_id new_path : String) (inode : InodeNumber) (revision : Nat) :
    LinkTransition where
  ns := sampleNs
  operation_id := operation_id
  state := .preparing
  source_path := "data/a.bin"
  new_path := new_path
  source_version := "v1"
  expected_mapping_revision := revision
  inode := inode
  operation_worker := "w0"
  operation_worker_incarnation := "inc-0"

def firstPromotion : LinkTransition := samplePromotion "op-1" "data/b.bin" ⟨9, by decide⟩ 0

def secondPromotion : LinkTransition := samplePromotion "op-2" "data/c.bin" ⟨10, by decide⟩ 1

def committed (s : State) (t : Transaction) : State :=
  let (s, _) := s.applyAll none t.operations
  { s with revision := s.revision + 1 }

def begun (s : State) (t : LinkTransition) : State :=
  match beginPromotion t with
  | .ok tx => committed s tx
  | .error _ => s

def sampleFirst : World := (start.use sampleNs firstPromotion.inode).next
    (begun .empty firstPromotion)

def sampleBoth : World :=
  (sampleFirst.use sampleNs secondPromotion.inode).next (begun sampleFirst.now secondPromotion)

def sampleOne : World :=
    sampleBoth.next (committed sampleBoth.now (commitPromotion firstPromotion 2))

def sampleTwo : World :=
    sampleOne.next (committed sampleOne.now (commitPromotion secondPromotion 3))

theorem sample_open {Allowed : State → LinkTransition → Prop} :
    Relation.ReflTransGen (Step Allowed) start sampleBoth := by
  have first : Step Allowed start sampleFirst :=
    @Step.beginPromotion _ start firstPromotion _ _ _ (fun absurd => absurd) rfl rfl
  have fresh : secondPromotion.inode ∉ sampleFirst.used sampleNs := by
    intro mem
    rcases mem with same | absurd
    · cases same
    · exact absurd
  have second : Step Allowed sampleFirst sampleBoth :=
    @Step.beginPromotion _ sampleFirst secondPromotion _ _ _ fresh rfl rfl
  exact Relation.ReflTransGen.tail (.single first) second

/-- Two promotions of one file are open at once, and the second commit takes the path of the
first: inode 9 still counts two links and has one. -/
theorem consistent_fails_for_overlapping_promotions :
    Relation.ReflTransGen (Step fun _ _ => True) start sampleTwo ∧
      ∃ record, (sampleTwo.now.namespaces sampleNs).inodes 9 = some record ∧
        record.link_count.value = 2 ∧
        (sampleTwo.now.namespaces sampleNs).names ⟨9, by decide⟩ = {"data/b.bin"} := by
  have one : Step (fun _ _ => True) sampleBoth sampleOne :=
    @Step.commitPromotion _ sampleBoth firstPromotion _ _ sampleBoth.now trivial
      mem_cons_self rfl rfl
  have two : Step (fun _ _ => True) sampleOne sampleTwo :=
    @Step.commitPromotion _ sampleOne secondPromotion _ _ sampleOne.now trivial
      mem_cons_self rfl rfl
  refine ⟨(sample_open.tail one).tail two, _, rfl, rfl, ?_⟩
  have paths : (sampleTwo.now.namespaces sampleNs).paths =
      update (update (update (update (fun _ => none)
        "data/a.bin" (some ⟨9, by decide⟩)) "data/b.bin" (some ⟨9, by decide⟩))
        "data/a.bin" (some ⟨10, by decide⟩)) "data/c.bin" (some ⟨10, by decide⟩) := rfl
  ext p
  simp only [NamespaceState.names, paths, update_apply, Set.mem_ofPred_eq,
    Set.mem_singleton_iff]
  by_cases second : p = "data/b.bin"
  · subst second
    decide
  · simp only [second, if_false, iff_false]
    split
    · simp
    · split
      · simp
      · simp

theorem consistent_after_one_promotion : (sampleOne.now.namespaces sampleNs).Consistent := by
  have one : Step Unclaimed sampleBoth sampleOne :=
    @Step.commitPromotion _ sampleBoth firstPromotion _ _ sampleBoth.now
      ⟨by decide, rfl, rfl⟩ mem_cons_self rfl rfl
  exact consistent_of_run (sample_open.tail one) sampleNs

end World

end Talon.Metadata
