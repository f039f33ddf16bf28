import Talon.Lib.PartialMap
import Talon.Worker.PageState

/-!
# The page table of a block

The table maps pages to handles; a handle is an index of the heap of page states, so that a page
admitted again gets a handle of its own.  The functions are the sections that run under the lock of
the block.
-/

set_option autoImplicit false

namespace Talon.Worker

open Nat PageWord Option Function PartialMap

/-- `page` is the page the handle was made for; no function reads it. -/
structure PageState where
  word : PageWord
  lastAccess : Option Nat
  page : Nat

/-- Out-of-order readers do not move the access time back. -/
def PageState.touch (s : PageState) (now : Nat) : PageState :=
  { s with lastAccess := some (match s.lastAccess with
      | none => now
      | some old => max old now) }

structure PageEntry where
  handle : Nat
  selection : Nat
deriving DecidableEq

/-- `since` counts the reads of the page that had completed at the selection; no function reads
it. -/
structure GcCandidate where
  page : Nat
  handle : Nat
  selection : Nat
  since : Nat
deriving DecidableEq

/-- `reads` counts the completed reads of each page and `removed` collects the handles taken out of
the table; no function reads either. -/
structure BlockPages where
  heap : Nat → PageState
  fresh : Nat
  pages : Nat → Option PageEntry
  reads : Nat → Nat
  removed : Set Nat

def expired (last : Option Nat) (now tti : Nat) : Bool :=
  match last with
  | none => true
  | some last => decide (tti < now - last)

variable {h : Nat} {e : PageEntry} {b'' : BlockPages} {reason : Fin 3} {closed : List Nat}

namespace BlockPages

def word (b : BlockPages) (h : Nat) : PageWord := (b.heap h).word

def setWord (b : BlockPages) (h : Nat) (w : PageWord) : BlockPages :=
  { b with heap := Function.update b.heap h { b.heap h with word := w } }

def touch (b : BlockPages) (h now : Nat) : BlockPages :=
  { b with heap := Function.update b.heap h ((b.heap h).touch now) }

/-- Selection consumes the accessed flag and makes older candidates of the page invalid. -/
def candidate (b : BlockPages) (page : Nat) : Option (GcCandidate × BlockPages) :=
  match b.pages page with
  | none => none
  | some e =>
    if (b.word e.handle).isClosed then none
    else some (⟨page, e.handle, e.selection + 1, b.reads page⟩,
      { b.setWord e.handle (b.word e.handle).takeAccessed with
        pages := PartialMap.insert b.pages page ⟨e.handle, e.selection + 1⟩ })

def claim (b : BlockPages) (c : GcCandidate) (now : Nat) (tti : Option Nat) : Bool × BlockPages :=
  match b.pages c.page with
  | none => (false, b)
  | some e =>
    if e.handle ≠ c.handle ∨ e.selection ≠ c.selection then (false, b)
    else if (b.word e.handle).isClaimable then
      if tti.any fun tti => !expired (b.heap e.handle).lastAccess now tti then
        (false, b.setWord e.handle (b.word e.handle).close.reopen)
      else (true, b.setWord e.handle (b.word e.handle).close)
    else (false, b)

def finish (b : BlockPages) (c : GcCandidate) : BlockPages :=
  match b.pages c.page with
  | none => b
  | some e =>
    if e.handle = c.handle ∧ e.selection = c.selection ∧ (b.word e.handle).isClosed then
      { b with
        pages := PartialMap.erase b.pages c.page
        removed := insert e.handle b.removed }
    else b

def abort (b : BlockPages) (c : GcCandidate) (reason : Fin 3) : BlockPages :=
  match b.pages c.page with
  | none => b
  | some e =>
    if e.handle = c.handle ∧ e.selection = c.selection then
      b.setWord e.handle ((b.word e.handle).abort reason)
    else b

def newEntry (b : BlockPages) (page : Nat) : BlockPages :=
  { b with
    heap := Function.update b.heap b.fresh ⟨0#64, none, page⟩
    fresh := b.fresh + 1
    pages := PartialMap.insert b.pages page ⟨b.fresh, 0⟩ }

/-- A duplicate fill keeps the handle of the page. -/
def ensureEntry (b : BlockPages) (page : Nat) : BlockPages :=
  match b.pages page with
  | some _ => b
  | none => b.newEntry page

/-- `track` is the block's access tracking; a page restored at startup is not `dirty`. -/
def register (b : BlockPages) (page : Nat) (access : Option Nat) (track dirty : Bool) :
    BlockPages :=
  let b := b.ensureEntry page
  match b.pages page with
  | none => b
  | some e =>
    let b := b.setWord e.handle (b.word e.handle).bind
    if dirty then
      let b := match track, access with
        | true, some access => b.touch e.handle access
        | _, _ => b
      b.setWord e.handle (b.word e.handle).markAccessed
    else if track then
      { b with
        heap := Function.update b.heap e.handle { b.heap e.handle with lastAccess := access } }
    else b

def reopen (b : BlockPages) (h : Nat) : BlockPages := b.setWord h (b.word h).reopen

/-- The loop of `claim_all_pages`, with the pages closed so far, last first; a page with a reader or
a claim reopens them, all within one section of the lock. -/
def closeAll (b : BlockPages) (closed : List Nat) : List Nat → BlockPages × Option (List Nat)
  | [] => (b, some closed.reverse)
  | h :: rest =>
    if (b.word h).isIdle then
      (b.setWord h (b.word h).close).closeAll (h :: closed) rest
    else (closed.foldl reopen b, none)

def InTable (b : BlockPages) (h : Nat) : Prop := ∃ p e, b.pages p = some e ∧ e.handle = h

/-- The end of a whole-block claim. -/
def clear (b : BlockPages) : BlockPages :=
  { b with pages := PartialMap.empty, removed := b.removed ∪ {h | b.InTable h} }

def view (b : BlockPages) (h : Nat) : PageWord.View := (b.word h).view

/-! ## The heap after an operation -/

section Heap

variable {b : BlockPages} {h j : Nat} {w : PageWord}

theorem word_setWord_self : (b.setWord h w).word h = w := by simp [word, setWord]

theorem word_setWord_of_ne (other : j ≠ h) : (b.setWord h w).word j = b.word j := by
  simp [word, setWord, other]

theorem view_setWord_self : (b.setWord h w).view h = w.view := by rw [view, word_setWord_self]

theorem view_setWord_of_ne (other : j ≠ h) : (b.setWord h w).view j = b.view j := by
  rw [view, word_setWord_of_ne other, view]

theorem view_setWord_same {β : Type} (f : PageWord.View → β) (same : f w.view = f (b.view h))
    (j : Nat) : f ((b.setWord h w).view j) = f (b.view j) := by
  by_cases here : j = h
  · rw [here, view_setWord_self, same]
  · rw [view_setWord_of_ne here]

theorem page_setWord : ((b.setWord h w).heap j).page = (b.heap j).page := by
  by_cases same : j = h
  · subst same
    simp [setWord]
  · simp [setWord, same]

theorem setWord_word : b.setWord h (b.word h) = b := by
  simp [setWord, word, update_eq_self]

theorem setWord_setWord {v : PageWord} : (b.setWord h v).setWord h w = b.setWord h w := by
  simp [setWord]

end Heap

/-! ## Well-formed tables -/

structure Ok (b : BlockPages) : Prop where
  allocated : ∀ p e, b.pages p = some e → e.handle < b.fresh
  home : ∀ p e, b.pages p = some e → (b.heap e.handle).page = p
  /-- A handle that left the table stays closed. -/
  gone : ∀ h, h < b.fresh → ¬b.InTable h → (b.view h).closed = true
  idle : ∀ h, (b.view h).closed = true → (b.view h).readers = 0
  removed : ∀ h ∈ b.removed, h < b.fresh ∧ ¬b.InTable h

theorem Ok.entry_of_open {b : BlockPages} (ok : b.Ok) (known : h < b.fresh)
    (opened : (b.view h).closed = false) :
    ∃ e, b.pages (b.heap h).page = some e ∧ e.handle = h := by
  have listed : b.InTable h := by
    by_contra absent
    rw [ok.gone h known absent] at opened
    cases opened
  obtain ⟨p, e, found, rfl⟩ := listed
  exact ⟨e, (ok.home p e found).symm ▸ found, rfl⟩

theorem Ok.page_eq {b : BlockPages} (ok : b.Ok) {p q : Nat} {f : PageEntry}
    (first : b.pages p = some e) (second : b.pages q = some f) (same : e.handle = f.handle) :
    p = q := by
  rw [← ok.home p e first, ← ok.home q f second, same]

/-- What every operation leaves of what was known: handles keep their page, and an entry is new,
selected again, or not read since. -/
structure Keeps (b b' : BlockPages) : Prop where
  fresh : b.fresh ≤ b'.fresh
  page : ∀ h, h < b.fresh → (b'.heap h).page = (b.heap h).page
  entry : ∀ p e', b'.pages p = some e' → b.fresh ≤ e'.handle ∨
    ∃ e, b.pages p = some e ∧ e.handle = e'.handle ∧ (e.selection < e'.selection ∨
      e.selection = e'.selection ∧ ((b'.view e'.handle).accessed = false →
        (b.view e'.handle).accessed = false ∧ b'.reads p = b.reads p))
  removed : b.removed ⊆ b'.removed

/-- What the operations that need no gate leave besides: the table has the same handles, the same of
them are closed, and a closed page is as it was. -/
structure Calm (b b' : BlockPages) : Prop extends Keeps b b' where
  fresh_eq : b'.fresh = b.fresh
  page_eq : ∀ h, (b'.heap h).page = (b.heap h).page
  removed_eq : b'.removed = b.removed
  handles : ∀ p, (b'.pages p).map PageEntry.handle = (b.pages p).map PageEntry.handle
  closed : ∀ h, (b'.view h).closed = (b.view h).closed
  still : ∀ p e, b.pages p = some e → (b.view e.handle).closed = true →
    b'.pages p = some e ∧ b'.reads p = b.reads p

section Calm

variable {b b' : BlockPages}

theorem Calm.entry_iff (calm : Calm b b') {p : Nat} :
    (∃ e, b'.pages p = some e ∧ e.handle = h) ↔ ∃ e, b.pages p = some e ∧ e.handle = h := by
  rw [← map_eq_some_iff, ← map_eq_some_iff, calm.handles]

theorem Calm.inTable_iff (calm : Calm b b') : b'.InTable h ↔ b.InTable h :=
  exists_congr fun _ => calm.entry_iff

theorem Ok.calm (ok : b.Ok) (calm : Calm b b')
    (idle : ∀ h, (b'.view h).closed = true → (b'.view h).readers = 0) : b'.Ok where
  allocated p e found := by
    obtain ⟨f, there, eq⟩ := calm.entry_iff.mp ⟨e, found, rfl⟩
    rw [← eq, calm.fresh_eq]
    exact ok.allocated p f there
  home p e found := by
    obtain ⟨f, there, eq⟩ := calm.entry_iff.mp ⟨e, found, rfl⟩
    rw [← eq, calm.page_eq]
    exact ok.home p f there
  gone h known absent := by
    rw [calm.closed]
    exact ok.gone h (calm.fresh_eq ▸ known) fun listed => absent (calm.inTable_iff.mpr listed)
  idle := idle
  removed h mem := by
    rw [calm.fresh_eq, calm.inTable_iff]
    exact ok.removed h (calm.removed_eq ▸ mem)

variable {w : PageWord}

theorem keeps_setWord (accessed : w.view.accessed = false → (b.view h).accessed = false) :
    Keeps b (b.setWord h w) where
  fresh := le_refl _
  page _ _ := page_setWord
  entry p e found := by
    refine .inr ⟨e, found, rfl, .inr ⟨rfl, fun clear => ⟨?_, rfl⟩⟩⟩
    by_cases same : e.handle = h
    · rw [same, view_setWord_self] at clear
      rw [same]
      exact accessed clear
    · rw [view_setWord_of_ne same] at clear
      exact clear
  removed _ mem := mem

theorem calm_setWord (closed : w.view.closed = (b.view h).closed)
    (accessed : w.view.accessed = (b.view h).accessed) : Calm b (b.setWord h w) where
  __ := keeps_setWord fun clear => accessed ▸ clear
  fresh_eq := rfl
  page_eq _ := page_setWord
  removed_eq := rfl
  handles _ := rfl
  closed := view_setWord_same PageWord.View.closed closed
  still _ _ found _ := ⟨found, rfl⟩

theorem Calm.of_eq (heap : ∀ h, b'.word h = b.word h)
    (page : ∀ h, (b'.heap h).page = (b.heap h).page) (fresh : b'.fresh = b.fresh)
    (pages : b'.pages = b.pages) (reads : b'.reads = b.reads) (removed : b'.removed = b.removed) :
    Calm b b' where
  fresh := le_of_eq fresh.symm
  page h _ := page h
  entry p e found := by
    refine .inr ⟨e, pages ▸ found, rfl, .inr ⟨rfl, fun clear => ?_⟩⟩
    rw [view, heap] at clear
    exact ⟨clear, congrFun reads p⟩
  removed _ mem := removed ▸ mem
  fresh_eq := fresh
  page_eq := page
  removed_eq := removed
  handles p := by rw [pages]
  closed h := by rw [view, heap, view]
  still p e found _ := ⟨pages ▸ found, congrFun reads p⟩

theorem word_touch {now j : Nat} : (b.touch h now).word j = b.word j := by
  by_cases same : j = h
  · subst same
    simp [word, touch, PageState.touch]
  · simp [word, touch, same]

theorem calm_touch (h now : Nat) : Calm b (b.touch h now) := by
  refine .of_eq (fun _ => word_touch) (fun j => ?_) rfl rfl rfl rfl
  by_cases same : j = h
  · subst same
    simp [touch, PageState.touch]
  · simp [touch, same]

def completeRead (b : BlockPages) (h : Nat) (w : PageWord) : BlockPages :=
  { b.setWord h w with
    reads := Function.update b.reads (b.heap h).page (b.reads (b.heap h).page + 1) }

theorem calm_completeRead (ok : b.Ok) (known : h < b.fresh)
    (opened : (b.view h).closed = false) (closed : w.view.closed = false)
    (accessed : w.view.accessed = true) : Calm b (b.completeRead h w) := by
  obtain ⟨_, listed, eq⟩ := ok.entry_of_open known opened
  have only : ∀ e, b.pages (b.heap h).page = some e → e.handle = h := by
    intro e found
    exact some.inj (listed.symm.trans found) ▸ eq
  have flags := view_setWord_same PageWord.View.closed (closed.trans opened.symm)
  refine ⟨⟨le_refl _, fun _ _ => page_setWord, ?_, fun _ mem => mem⟩, rfl,
    fun _ => page_setWord, rfl, fun _ => rfl, flags, ?_⟩
  · intro p e found
    refine .inr ⟨e, found, rfl, .inr ⟨rfl, fun clear => ?_⟩⟩
    have other : e.handle ≠ h := by
      intro same
      have set : ((b.completeRead h w).view e.handle).accessed = true := by
        rw [same]
        exact (congrArg _ view_setWord_self).trans accessed
      rw [set] at clear
      cases clear
    have apart : p ≠ (b.heap h).page := fun same => other (only e (same ▸ found))
    refine ⟨?_, update_of_ne apart _ _⟩
    rw [← view_setWord_of_ne (w := w) other]
    exact clear
  · intro p e found shut
    refine ⟨found, update_of_ne ?_ _ _⟩
    intro same
    rw [only e (same ▸ found), opened] at shut
    cases shut

variable {page : Nat} {c : GcCandidate}

theorem candidate_some (selected : b.candidate page = some (c, b')) :
    ∃ e, b.pages page = some e ∧ (b.view e.handle).closed = false ∧
      c = ⟨page, e.handle, e.selection + 1, b.reads page⟩ ∧
      b' = { b.setWord e.handle (b.word e.handle).takeAccessed with
        pages := PartialMap.insert b.pages page ⟨e.handle, e.selection + 1⟩ } := by
  unfold candidate at selected
  split at selected
  · cases selected
  · rename_i e found
    split at selected
    · cases selected
    · rename_i opened
      rw [isClosed_eq, Bool.not_eq_true] at opened
      obtain ⟨rfl, rfl⟩ := Prod.mk.inj (some.inj selected)
      exact ⟨e, found, opened, rfl, rfl⟩

theorem calm_candidate (ok : b.Ok) (selected : b.candidate page = some (c, b')) : Calm b b' := by
  obtain ⟨e, found, opened, _, rfl⟩ := candidate_some selected
  have flags : ∀ j, ((b.setWord e.handle (b.word e.handle).takeAccessed).view j).closed =
      (b.view j).closed :=
    view_setWord_same PageWord.View.closed (by rw [view_takeAccessed]; rfl)
  refine ⟨⟨le_refl _, fun _ _ => page_setWord, ?_, fun _ mem => mem⟩, rfl,
    fun _ => page_setWord, rfl, ?_, flags, ?_⟩
  · intro p f there
    by_cases same : p = page
    · subst same
      obtain rfl : (⟨e.handle, e.selection + 1⟩ : PageEntry) = f := by
        simpa using there
      exact .inr ⟨e, found, rfl, .inl (lt_succ_self _)⟩
    · have before : b.pages p = some f := by simpa [same] using there
      refine .inr ⟨f, before, rfl, .inr ⟨rfl, fun clear => ⟨?_, rfl⟩⟩⟩
      have other : f.handle ≠ e.handle := fun eq => same (ok.page_eq before found eq)
      rw [← view_setWord_of_ne (w := (b.word e.handle).takeAccessed) other]
      exact clear
  · intro p
    by_cases same : p = page
    · subst same
      simp [found]
    · simp [same]
  · intro p f there shut
    have apart : p ≠ page := by
      intro same
      rw [same, found] at there
      rw [← some.inj there, opened] at shut
      cases shut
    exact ⟨by simpa [apart] using there, rfl⟩

end Calm

/-! ## The operations under the gate -/

section Gated

variable {b b' : BlockPages} {h : Nat} {w : PageWord} {c : GcCandidate}

theorem Keeps.refl (b : BlockPages) : Keeps b b where
  fresh := le_refl _
  page _ _ := rfl
  entry _ e found := .inr ⟨e, found, rfl, .inr ⟨rfl, fun clear => ⟨clear, rfl⟩⟩⟩
  removed _ mem := mem

theorem Keeps.trans (first : Keeps b b') (second : Keeps b' b'') : Keeps b b'' where
  fresh := le_trans first.fresh second.fresh
  page h known := (second.page h (lt_of_lt_of_le known first.fresh)).trans (first.page h known)
  entry p e'' found := by
    obtain new | ⟨e', there, eq', since'⟩ := second.entry p e'' found
    · exact .inl (le_trans first.fresh new)
    · obtain new | ⟨e, before, eq, since⟩ := first.entry p e' there
      · exact .inl (eq' ▸ new)
      · refine .inr ⟨e, before, eq.trans eq', ?_⟩
        obtain more' | ⟨same', kept'⟩ := since'
        · obtain more | ⟨same, _⟩ := since
          · exact .inl (lt_trans more more')
          · exact .inl (same ▸ more')
        · obtain more | ⟨same, kept⟩ := since
          · exact .inl (same' ▸ more)
          · refine .inr ⟨same.trans same', fun clear => ?_⟩
            obtain ⟨clear', reads'⟩ := kept' clear
            obtain ⟨clear'', reads⟩ := kept (eq' ▸ clear')
            exact ⟨eq' ▸ clear'', reads'.trans reads⟩
  removed _ mem := second.removed (first.removed mem)

theorem Ok.setWord (ok : b.Ok) (idle : w.view.closed = true → w.view.readers = 0)
    (gone : h < b.fresh → ¬b.InTable h → w.view.closed = true) : (b.setWord h w).Ok where
  allocated := ok.allocated
  home p e found := page_setWord.trans (ok.home p e found)
  gone j known absent := by
    by_cases same : j = h
    · rw [same, view_setWord_self]
      exact gone (same ▸ known) (same ▸ absent)
    · rw [view_setWord_of_ne same]
      exact ok.gone j known absent
  idle j closed := by
    by_cases same : j = h
    · rw [same, view_setWord_self] at closed ⊢
      exact idle closed
    · rw [view_setWord_of_ne same] at closed ⊢
      exact ok.idle j closed
  removed := ok.removed

variable {tti : Option Nat}

theorem claim_true {now : Nat} (claimed : b.claim c now tti = (true, b')) :
    b.pages c.page = some ⟨c.handle, c.selection⟩ ∧ b.view c.handle = ⟨0, false, false⟩ ∧
      b' = b.setWord c.handle (b.word c.handle).close := by
  unfold claim at claimed
  split at claimed
  · cases claimed
  · rename_i e found
    split at claimed
    · cases claimed
    · rename_i valid
      obtain ⟨handle, selection⟩ := not_or.mp valid
      rw [not_not] at handle selection
      split at claimed
      · rename_i claimable
        split at claimed
        · cases claimed
        · rw [handle] at claimed claimable
          refine ⟨?_, (isClaimable_iff _).mp claimable, (Prod.mk.inj claimed).2.symm⟩
          rw [found, ← handle, ← selection]
      · cases claimed

theorem claim_false {now : Nat} (refused : b.claim c now tti = (false, b')) : b' = b := by
  unfold claim at refused
  split at refused
  · exact (Prod.mk.inj refused).2.symm
  · rename_i e found
    split at refused
    · exact (Prod.mk.inj refused).2.symm
    · split at refused
      · rename_i claimable
        split at refused
        · rw [← (Prod.mk.inj refused).2]
          have view := (isClaimable_iff _).mp claimable
          have opened : (b.word e.handle).view.closed = false := by rw [view]
          rw [reopen_close opened, setWord_word]
        · cases refused
      · exact (Prod.mk.inj refused).2.symm

theorem keeps_close : Keeps b (b.setWord h (b.word h).close) := by
  apply keeps_setWord
  intro clear
  rw [view_close] at clear
  exact clear

theorem Ok.close (ok : b.Ok) (idle : (b.view h).readers = 0) :
    (b.setWord h (b.word h).close).Ok := by
  apply ok.setWord
  · intro _
    rw [view_close]
    exact idle
  · intro _ _
    rw [view_close]

theorem finish_eq (entry : b.pages c.page = some ⟨c.handle, c.selection⟩)
    (closed : (b.view c.handle).closed = true) :
    b.finish c = { b with
      pages := PartialMap.erase b.pages c.page, removed := insert c.handle b.removed } := by
  have set := (isClosed_eq _).trans closed
  simp [finish, entry, set]

theorem keeps_finish : Keeps b (b.finish c) := by
  unfold finish
  split
  · exact .refl b
  · split
    · refine ⟨le_refl _, fun _ _ => rfl, fun p e found => ?_, fun _ mem => .inr mem⟩
      exact .inr ⟨e, (of_erase found).2, rfl, .inr ⟨rfl, fun clear => ⟨clear, rfl⟩⟩⟩
    · exact .refl b

theorem Ok.finish (ok : b.Ok) (entry : b.pages c.page = some ⟨c.handle, c.selection⟩)
    (closed : (b.view c.handle).closed = true) : (b.finish c).Ok := by
  rw [finish_eq entry closed]
  refine ⟨fun p e found => ok.allocated p e (of_erase found).2,
    fun p e found => ok.home p e (of_erase found).2, ?_, ok.idle, ?_⟩
  · intro h known absent
    by_cases same : h = c.handle
    · exact same ▸ closed
    · apply ok.gone h known
      intro ⟨p, e, found, eq⟩
      have apart : p ≠ c.page := by
        intro at_page
        rw [at_page, entry] at found
        exact same (eq ▸ some.inj found ▸ rfl)
      exact absent ⟨p, e, by simpa [apart] using found, eq⟩
  · intro h mem
    obtain rfl | before := mem
    · refine ⟨ok.allocated _ _ entry, ?_⟩
      intro ⟨p, e, found, eq⟩
      obtain ⟨apart, before⟩ := of_erase found
      exact apart (ok.page_eq before entry eq)
    · obtain ⟨known, absent⟩ := ok.removed h before
      refine ⟨known, fun ⟨p, e, found, eq⟩ => absent ⟨p, e, (of_erase found).2, eq⟩⟩

theorem keeps_abort : Keeps b (b.setWord h ((b.word h).abort reason)) := by
  apply keeps_setWord
  intro clear
  rw [view_abort] at clear
  exact clear

theorem keeps_reopen : Keeps b (b.reopen h) := by
  apply keeps_setWord
  intro clear
  rw [view_reopen] at clear
  exact clear

theorem Ok.abort (ok : b.Ok) (listed : b.InTable h) :
    (b.setWord h ((b.word h).abort reason)).Ok := by
  apply ok.setWord
  · intro closed
    rw [view_abort] at closed
    cases closed
  · exact fun _ absent => absurd listed absent

theorem Ok.reopen (ok : b.Ok) (listed : b.InTable h) : (b.reopen h).Ok := by
  apply ok.setWord
  · intro closed
    rw [view_reopen] at closed
    cases closed
  · exact fun _ absent => absurd listed absent

theorem not_inTable_clear : ¬b.clear.InTable h := fun ⟨_, _, found, _⟩ => nomatch found

theorem Ok.clear (ok : b.Ok) (closed : ∀ h, b.InTable h → (b.view h).closed = true) :
    b.clear.Ok where
  allocated _ _ found := nomatch found
  home _ _ found := nomatch found
  gone h known _ := by
    by_cases listed : b.InTable h
    · exact closed h listed
    · exact ok.gone h known listed
  idle := ok.idle
  removed h mem := by
    refine ⟨?_, not_inTable_clear⟩
    obtain before | ⟨p, e, found, eq⟩ := mem
    · exact (ok.removed h before).1
    · exact eq ▸ ok.allocated p e found

/-! ### Closing every page -/

/-- The pages of the stack were closed one after the other, from `b₀` on. -/
def Closing (b₀ : BlockPages) : List Nat → BlockPages → Prop
  | [], b => b = b₀
  | h :: closed, b => ∃ b₁, Closing b₀ closed b₁ ∧ (b₁.view h).closed = false ∧
      b = b₁.setWord h (b₁.word h).close

variable {b₀ : BlockPages}

theorem Closing.reopen (closing : Closing b₀ closed b) : closed.foldl BlockPages.reopen b = b₀ := by
  induction closed generalizing b with
  | nil => exact closing
  | cons h _ ih =>
    obtain ⟨b₁, before, opened, rfl⟩ := closing
    have undone : (b₁.setWord h (b₁.word h).close).reopen h = b₁ := by
      rw [BlockPages.reopen, word_setWord_self, reopen_close opened, setWord_setWord,
        setWord_word]
    rw [List.foldl_cons, undone]
    exact ih before

theorem closeAll_none {rest : List Nat} (closing : Closing b₀ closed b)
    (failed : b.closeAll closed rest = (b', none)) : b' = b₀ := by
  induction rest generalizing b closed with
  | nil => cases failed
  | cons h _ ih =>
    unfold closeAll at failed
    split at failed
    · rename_i idle
      have next : Closing b₀ (h :: closed) (b.setWord h (b.word h).close) :=
        ⟨b, closing, ((isIdle_iff _).mp idle).2, rfl⟩
      exact ih next failed
    · rw [← (Prod.mk.inj failed).1]
      exact closing.reopen

structure ClosedAll (b b' : BlockPages) (handles : List Nat) : Prop where
  keeps : Keeps b b'
  pages : b'.pages = b.pages
  ok : b.Ok → b'.Ok
  readers : ∀ h, (b'.view h).readers = (b.view h).readers
  closed : ∀ h, h ∈ handles ∨ (b.view h).closed = true → (b'.view h).closed = true

theorem closeAll_some {rest handles : List Nat}
    (claimed : b.closeAll closed rest = (b', some handles)) :
    handles = closed.reverse ++ rest ∧ ClosedAll b b' rest := by
  induction rest generalizing b closed with
  | nil =>
    obtain ⟨rfl, all⟩ := Prod.mk.inj claimed
    obtain rfl := some.inj all
    refine ⟨by simp, ⟨.refl b, rfl, fun ok => ok, fun _ => rfl, ?_⟩⟩
    intro h shut
    obtain mem | shut := shut
    · cases mem
    · exact shut
  | cons h _ ih =>
    unfold closeAll at claimed
    split at claimed
    · rename_i idle
      obtain ⟨readers, _⟩ := (isIdle_iff _).mp idle
      obtain ⟨rfl, all⟩ := ih claimed
      refine ⟨by simp, ?_⟩
      have view : (b.setWord h (b.word h).close).view h = { b.view h with closed := true } := by
        rw [view_setWord_self, view_close]
        rfl
      refine ⟨keeps_close.trans all.keeps, all.pages, fun ok => all.ok (ok.close readers), ?_, ?_⟩
      · intro j
        rw [all.readers]
        exact view_setWord_same PageWord.View.readers (by rw [view_close]; rfl) j
      · intro j shut
        apply all.closed
        by_cases same : j = h
        · exact .inr (by rw [same, view])
        · rw [view_setWord_of_ne same]
          exact shut.imp_left fun mem => (List.mem_cons.mp mem).resolve_left same
    · cases claimed

/-! ### Admission -/

section NewEntry

variable {page : Nat}

theorem heap_newEntry_of_ne (other : h ≠ b.fresh) : (b.newEntry page).heap h = b.heap h :=
  update_of_ne other _ _

theorem view_newEntry_of_ne (other : h ≠ b.fresh) : (b.newEntry page).view h = b.view h := by
  rw [view, word, heap_newEntry_of_ne other, view, word]

theorem view_newEntry_self : (b.newEntry page).view b.fresh = ⟨0, false, false⟩ := by
  simp [view, word, newEntry, view_zero]

theorem pages_newEntry {p : Nat} (found : (b.newEntry page).pages p = some e) :
    (p = page ∧ e.handle = b.fresh) ∨ b.pages p = some e := by
  by_cases same : p = page
  · subst same
    obtain rfl : (⟨b.fresh, 0⟩ : PageEntry) = e := by simpa [newEntry] using found
    exact .inl ⟨rfl, rfl⟩
  · exact .inr (by simpa [newEntry, same] using found)

theorem pages_newEntry_of_some {p : Nat} (absent : b.pages page = none)
    (found : b.pages p = some e) : (b.newEntry page).pages p = some e := by
  have apart : p ≠ page := by
    intro same
    rw [same, absent] at found
    cases found
  simpa [newEntry, apart] using found

theorem keeps_newEntry : Keeps b (b.newEntry page) where
  fresh := le_succ _
  page h known := by rw [heap_newEntry_of_ne (Nat.ne_of_lt known)]
  entry p e found := by
    obtain ⟨_, new⟩ | before := pages_newEntry found
    · exact .inl (le_of_eq new.symm)
    · by_cases new : e.handle = b.fresh
      · exact .inl (le_of_eq new.symm)
      · refine .inr ⟨e, before, rfl, .inr ⟨rfl, fun clear => ⟨?_, rfl⟩⟩⟩
        rw [view_newEntry_of_ne new] at clear
        exact clear
  removed _ mem := mem

theorem Ok.newEntry (ok : b.Ok) (absent : b.pages page = none) : (b.newEntry page).Ok where
  allocated p e found := by
    obtain ⟨_, eq⟩ | before := pages_newEntry found
    · rw [eq]
      exact lt_succ_self _
    · exact lt_succ_of_lt (ok.allocated p e before)
  home p e found := by
    obtain ⟨rfl, eq⟩ | before := pages_newEntry found
    · simp [eq, BlockPages.newEntry]
    · rw [heap_newEntry_of_ne (Nat.ne_of_lt (ok.allocated p e before))]
      exact ok.home p e before
  gone h known missing := by
    have other : h ≠ b.fresh := by
      intro same
      exact missing ⟨page, ⟨b.fresh, 0⟩, by simp [BlockPages.newEntry], same.symm⟩
    rw [view_newEntry_of_ne other]
    refine ok.gone h (lt_of_le_of_ne (le_of_lt_succ known) other) ?_
    intro ⟨p, e, found, eq⟩
    exact missing ⟨p, e, pages_newEntry_of_some absent found, eq⟩
  idle h closed := by
    by_cases new : h = b.fresh
    · rw [new, view_newEntry_self]
    · rw [view_newEntry_of_ne new] at closed ⊢
      exact ok.idle h closed
  removed h mem := by
    obtain ⟨known, missing⟩ := ok.removed h mem
    refine ⟨lt_succ_of_lt known, fun ⟨p, e, found, eq⟩ => ?_⟩
    obtain ⟨_, new⟩ | before := pages_newEntry found
    · exact Nat.ne_of_lt known (eq ▸ new)
    · exact missing ⟨p, e, before, eq⟩

end NewEntry

structure Admits (b b' : BlockPages) : Prop where
  keeps : Keeps b b'
  ok : b.Ok → b'.Ok
  readers : ∀ h, h ≠ b.fresh → (b'.view h).readers = (b.view h).readers
  fresh : (b'.view b.fresh).readers = 0 ∨
    (b'.view b.fresh).readers = (b.view b.fresh).readers
  shut : ∀ h, b'.InTable h → (b'.view h).closed = true → b.InTable h ∧ (b.view h).closed = true

theorem Admits.trans_calm (first : Admits b b') (second : Keeps b' b'') (ok : b'.Ok → b''.Ok)
    (readers : ∀ h, (b''.view h).readers = (b'.view h).readers)
    (shut : ∀ h, b''.InTable h → (b''.view h).closed = true → b'.InTable h ∧
      (b'.view h).closed = true) :
    Admits b b'' where
  keeps := first.keeps.trans second
  ok before := ok (first.ok before)
  readers h other := (readers h).trans (first.readers h other)
  fresh := by
    rw [readers]
    exact first.fresh
  shut h listed closed := first.shut h (shut h listed closed).1 (shut h listed closed).2

theorem admits_ensureEntry (b : BlockPages) (page : Nat) : Admits b (b.ensureEntry page) := by
  unfold ensureEntry
  split
  · exact ⟨.refl b, fun ok => ok, fun _ _ => rfl, .inr rfl, fun _ listed closed => ⟨listed, closed⟩⟩
  · rename_i absent
    refine ⟨keeps_newEntry, fun ok => ok.newEntry absent, fun h other => ?_, .inl ?_, ?_⟩
    · rw [view_newEntry_of_ne other]
    · rw [view_newEntry_self]
    · rintro _ ⟨p, e, found, rfl⟩ closed
      by_cases new : e.handle = b.fresh
      · rw [new, view_newEntry_self] at closed
        cases closed
      · rw [view_newEntry_of_ne new] at closed
        exact ⟨⟨p, e, (pages_newEntry found).resolve_left fun here => new here.2, rfl⟩, closed⟩

theorem Admits.setWord (first : Admits b b')
    (accessed : w.view.accessed = false → (b'.view h).accessed = false)
    (closed : w.view.closed = (b'.view h).closed)
    (readers : w.view.readers = (b'.view h).readers) : Admits b (b'.setWord h w) := by
  apply first.trans_calm (keeps_setWord accessed)
  · intro ok
    apply ok.setWord
    · intro shut
      rw [readers]
      exact ok.idle h (closed ▸ shut)
    · intro known missing
      exact closed.trans (ok.gone h known missing)
  · exact view_setWord_same PageWord.View.readers readers
  · intro j listed shut
    rw [view_setWord_same PageWord.View.closed closed] at shut
    exact ⟨listed, shut⟩

theorem Admits.calm (first : Admits b b') (calm : Calm b' b'')
    (words : ∀ h, b''.word h = b'.word h) :
    Admits b b'' := by
  have views : ∀ h, b''.view h = b'.view h := fun h => congrArg _ (words h)
  apply first.trans_calm calm.toKeeps
  · intro ok
    apply ok.calm calm
    intro h shut
    rw [views] at shut ⊢
    exact ok.idle h shut
  · intro h
    rw [views]
  · intro h listed shut
    rw [views] at shut
    exact ⟨calm.inTable_iff.mp listed, shut⟩

theorem admits_register (b : BlockPages) (page : Nat) (access : Option Nat) (track dirty : Bool) :
    Admits b (b.register page access track dirty) := by
  have admitted := admits_ensureEntry b page
  simp only [register]
  split
  · exact admitted
  · rename_i e _
    have bound : Admits b
        ((b.ensureEntry page).setWord e.handle ((b.ensureEntry page).word e.handle).bind) := by
      have same := view_bind ((b.ensureEntry page).word e.handle)
      refine admitted.setWord (fun clear => ?_) (congrArg _ same) (congrArg _ same)
      rw [same] at clear
      exact clear
    split
    · have mark : ∀ b', Admits b b' →
          Admits b (b'.setWord e.handle (b'.word e.handle).markAccessed) := by
        intro b' before
        have marked := view_markAccessed (b'.word e.handle)
        refine before.setWord (fun clear => ?_) ?_ ?_
        · rw [marked] at clear
          cases clear
        · rw [marked]
          rfl
        · rw [marked]
          rfl
      split
      · exact mark _ (bound.calm (calm_touch _ _) fun _ => word_touch)
      · exact mark _ bound
    · split
      · refine bound.calm (.of_eq ?_ ?_ rfl rfl rfl rfl) ?_
        all_goals
          intro j
          by_cases same : j = e.handle <;> simp [same, word]
      · exact bound

end Gated

end BlockPages

end Talon.Worker
