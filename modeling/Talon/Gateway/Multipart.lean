import Talon.Lib.Holders
import Talon.Gateway.PolicyRuns

/-!
# Multipart uploads and their reservations

The registry has room for a number of uploads and reservations together.  A `create_multipart` call
reserves, asks the origin, and publishes the upload or cancels; calls run at once, and any of them
may be dropped at its deadline while it waits for an answer.
-/

set_option autoImplicit false

namespace Talon.Gateway

open Wire (Bytes)
open Text (ascii)
open Relation (ReflTransGen)
open PartialMap List

/-- `MultipartRegistryState`; each binding with the instant it was touched. -/
structure MultipartRegistry where
  uploads : List (Bytes × MultipartBinding × Nat)
  reservations : Nat

namespace MultipartRegistry

variable (maxUploads ttl now : Nat) (g : MultipartRegistry)

def pruneLocked : MultipartRegistry :=
  { g with uploads := g.uploads.filter fun u => now - u.2.2 ≤ ttl }

def reserve : MultipartRegistry × Bool :=
  let g := g.pruneLocked ttl now
  if maxUploads ≤ g.uploads.length + g.reservations then (g, false)
  else ({ g with reservations := g.reservations + 1 }, true)

def cancelReservation : MultipartRegistry := { g with reservations := g.reservations - 1 }

def publish (uploadId : Bytes) (binding : MultipartBinding) : MultipartRegistry × Bool :=
  let g := g.cancelReservation
  if g.uploads.any (·.1 = uploadId) then (g, false)
  else ({ g with uploads := (uploadId, binding, now) :: g.uploads }, true)

def authorize (uploadId : Bytes) (binding : MultipartBinding) : MultipartRegistry × Bool :=
  let g := g.pruneLocked ttl now
  match g.uploads.lookup uploadId with
  | none => (g, false)
  | some (bound, _) =>
    if bound.object ≠ binding.object ∨ bound.principal ≠ binding.principal ∨
        bound.decision ≠ binding.decision then (g, false)
    else
      let touch := fun u => if u.1 = uploadId then (u.1, u.2.1, now) else u
      ({ g with uploads := g.uploads.map touch }, true)

def remove (uploadId : Bytes) : MultipartRegistry :=
  { g with uploads := g.uploads.filter (·.1 ≠ uploadId) }

/-- The effect leaves the registry as `g'`; only an effect outside it may have any answer. -/
def Performs (g' : MultipartRegistry) : (e : Effect) → e.Answer → Prop
  | .reserve, answer => g.reserve maxUploads ttl now = (g', answer)
  | .cancelReservation, _ => g.cancelReservation = g'
  | .publish uploadId binding, answer => g.publish now uploadId binding = (g', answer)
  | .authorizeUpload uploadId binding, answer => g.authorize ttl now uploadId binding = (g', answer)
  | .removeUpload uploadId, _ => g.remove uploadId = g'
  | _, _ => g = g'

variable {maxUploads ttl now : Nat} {g g' : MultipartRegistry} {uploadId : Bytes}
  {binding : MultipartBinding} {answer : Bool}

theorem authorize_kept (h : g.authorize ttl now uploadId binding = (g', answer)) :
    g'.uploads.length ≤ g.uploads.length ∧ g'.reservations = g.reservations := by
  have pruned := length_filter_le (fun u => decide (now - u.2.2 ≤ ttl)) g.uploads
  simp only [authorize] at h
  split at h
  · cases h
    exact ⟨pruned, rfl⟩
  · split at h <;> cases h
    · exact ⟨pruned, rfl⟩
    · exact ⟨(length_map _).trans_le pruned, rfl⟩

end MultipartRegistry

/-- Whether a call is between its reserve and its publish or cancel, after an answer. -/
def Effect.holding (held : Bool) : (e : Effect) → e.Answer → Bool
  | .reserve, answer => answer
  | .cancelReservation, _ | .publish _ _, _ => false
  | _, _ => held

/-- The registry and the calls in progress, each with whether it holds a reservation. -/
structure Uploads (ι : Type) where
  registry : MultipartRegistry
  calls : ι → Option (Bool × Handler GatewayResponse)

section Runs

variable {ι : Type} [DecidableEq ι] (services : S3Services) (maxUploads ttl : Nat)

def Uploads.new : Uploads ι := ⟨⟨[], 0⟩, empty⟩

/-- One step, with the call that its deadline drops, if any. -/
inductive Uploads.Step : Option ι → Uploads ι → Uploads ι → Prop
  | create {s} (i : ι) (object : ObjectId) (headers : Headers) (principal : AuthenticatedPrincipal)
      (decision : EffectiveDecision) (fresh : s.calls i = none) :
      Step none s ⟨s.registry, insert s.calls i
        (false, createMultipart services object headers principal decision)⟩
  | call {s i held p e next answer g} (now : Nat)
      (running : s.calls i = some (held, p)) (waits : p.pending = some ⟨e, next⟩)
      (performs : s.registry.Performs maxUploads ttl now g e answer) :
      Step none s ⟨g, insert s.calls i (e.holding held answer, next answer)⟩
  | finish {s i held p} (running : s.calls i = some (held, p)) (ended : p.pending = none) :
      Step none s ⟨s.registry, erase s.calls i⟩
  | drop {s} (i : ι) : Step (some i) s ⟨s.registry, erase s.calls i⟩
  /-- Another multipart operation authorizes its upload. -/
  | authorize {s} (now : Nat) (uploadId : Bytes) (binding : MultipartBinding) :
      Step none s ⟨(s.registry.authorize ttl now uploadId binding).1, s.calls⟩
  | remove {s} (uploadId : Bytes) : Step none s ⟨s.registry.remove uploadId, s.calls⟩

def Uploads.Careful (s t : Uploads ι) : Prop :=
  ∃ dropped, Uploads.Step services maxUploads ttl dropped s t ∧
    ∀ i ∈ dropped, ∀ p, s.calls i ≠ some (true, p)

/-- A call may make the effect, given whether it holds a reservation. -/
def Effect.Suits (held : Bool) : Effect → Prop
  | .reserve => held = false
  | .cancelReservation | .publish _ _ => held = true
  | _ => True

/-- Whatever the answers, each reservation is given back once before the program ends. -/
def Balanced : Bool → Handler GatewayResponse → Prop
  | held, .done _ | held, .fail _ => held = false
  | held, .call e next => e.Suits held ∧ ∀ answer, Balanced (e.holding held answer) (next answer)

theorem balanced_createMultipart (object : ObjectId) (headers : Headers)
    (principal : AuthenticatedPrincipal) (decision : EffectiveDecision) :
    Balanced false (createMultipart services object headers principal decision) := by
  refine ⟨rfl, fun reserved => ?_⟩
  cases reserved with
  | false => rfl
  | true =>
    cases mutationHeaders services.readers headers false with
    | error => exact ⟨rfl, fun _ => rfl⟩
    | ok =>
      refine ⟨trivial, fun response => ?_⟩
      cases response with
      | none => exact ⟨rfl, fun _ => rfl⟩
      | some response =>
        change Balanced true (if ¬ response.isSuccess then _ else _)
        split
        · exact ⟨rfl, fun _ => rfl⟩
        · split
          · exact ⟨rfl, fun _ => rfl⟩
          · refine ⟨rfl, fun published => ?_⟩
            cases published <;> rfl

def holds (call : Bool × Handler GatewayResponse) : Option Unit := if call.1 then some () else none

structure Uploads.Ok (s : Uploads ι) : Prop where
  room : s.registry.uploads.length + s.registry.reservations ≤ maxUploads
  counts : Holders.Counts holds s.calls fun _ => s.registry.reservations
  balanced : ∀ i call, s.calls i = some call → Balanced call.1 call.2

variable {services : S3Services} {maxUploads ttl : Nat} {s t : Uploads ι}

/-- Every call keeps the reservations counted and the registry within its bound. -/
theorem Uploads.Ok.call {i : ι} {held : Bool} {p : Handler GatewayResponse} {e : Effect}
    {next : e.Answer → Handler GatewayResponse} {now : Nat} {answer : e.Answer}
    {g : MultipartRegistry} (h : s.Ok maxUploads) (running : s.calls i = some (held, p))
    (waits : p.pending = some ⟨e, next⟩)
    (performs : s.registry.Performs maxUploads ttl now g e answer) :
    Uploads.Ok maxUploads ⟨g, insert s.calls i (e.holding held answer, next answer)⟩ := by
  obtain ⟨suits, rest⟩ : Balanced held (.call e next) := by
    have whole := h.balanced i _ running
    cases p with
    | call =>
      cases waits
      exact whole
    | _ => cases waits
  have balanced := forall_insert (k := i) (v := (e.holding held answer, next answer)) (rest answer)
    fun j call _ => h.balanced j call
  have room := h.room
  have before : (s.calls i).bind holds = holds (held, p) := by
    rw [running]
    rfl
  cases e with
  | reserve =>
    cases (suits : held = false)
    simp only [MultipartRegistry.Performs, MultipartRegistry.reserve] at performs
    have fewer := length_filter_le (fun u => decide (now - u.2.2 ≤ ttl)) s.registry.uploads
    split at performs <;> cases performs
    · exact ⟨le_trans (Nat.add_le_add_right fewer _) room, h.counts.keep (by rw [before]; rfl),
        balanced⟩
    · exact ⟨Nat.lt_of_not_le ‹_›, h.counts.gain (k := ()) before rfl, balanced⟩
  | cancelReservation =>
    cases (suits : held = true)
    cases performs
    exact ⟨le_trans (Nat.add_le_add_left (Nat.sub_le _ 1) _) room, h.counts.lose before
      rfl, balanced⟩
  | publish =>
    cases (suits : held = true)
    have positive := h.counts.pos running rfl
    simp only [MultipartRegistry.Performs, MultipartRegistry.publish] at performs
    split at performs <;> cases performs
    all_goals
      exact ⟨by simp [MultipartRegistry.cancelReservation]; omega, h.counts.lose before
        rfl, balanced⟩
  | authorizeUpload =>
    obtain ⟨_, same⟩ := MultipartRegistry.authorize_kept performs
    exact ⟨by dsimp only; omega, (h.counts.keep (by rw [before]; rfl)).congr fun _ =>
      same, balanced⟩
  | removeUpload =>
    cases performs
    exact ⟨le_trans (Nat.add_le_add_right (length_filter_le _ _) _) room, h.counts.keep before.symm,
      balanced⟩
  | _ =>
    cases performs
    exact ⟨room, h.counts.keep before.symm, balanced⟩

theorem Uploads.Careful.ok (step : Uploads.Careful services maxUploads ttl s t)
    (h : s.Ok maxUploads) : t.Ok maxUploads := by
  obtain ⟨_, step, careful⟩ := step
  have room := h.room
  cases step with
  | create i _ _ _ _ fresh =>
    exact ⟨room, h.counts.keep (by rw [fresh]; rfl),
      forall_insert (balanced_createMultipart ..) fun j call _ => h.balanced j call⟩
  | call _ running waits performs => exact h.call running waits performs
  | @finish _ i held p running ended =>
    have free : held = false := by
      have whole := h.balanced i _ running
      cases p with
      | call => cases ended
      | _ => exact whole
    cases free
    exact ⟨room, h.counts.keep (by rw [running]; rfl), fun j call found => h.balanced j call
      (of_erase found).2⟩
  | drop i =>
    have free : (s.calls i).bind holds = none := by
      cases found : s.calls i with
      | none => rfl
      | some call =>
        cases call with
        | mk held p =>
          cases held with
          | false => rfl
          | true => exact absurd found (careful i rfl p)
    exact ⟨room, h.counts.keep free.symm, fun j call found => h.balanced j call (of_erase found).2⟩
  | authorize =>
    obtain ⟨fewer, same⟩ := MultipartRegistry.authorize_kept (g := s.registry) rfl
    exact ⟨Nat.le_trans (Nat.add_le_add fewer same.le) room, h.counts.congr fun _ =>
      same, h.balanced⟩
  | remove =>
    exact ⟨Nat.le_trans (Nat.add_le_add_right (length_filter_le _ _) _) room, h.counts, h.balanced⟩

/-- In a run that drops no call holding a reservation, uploads and reservations stay within the
limit, the reservations are those of the calls that hold one, and once no call is left and every
binding has expired, an upload can be created. -/
theorem reservations_never_leaked (services : S3Services) (maxUploads ttl : Nat)
    (positive : 0 < maxUploads) (s : Uploads ι)
    (run : ReflTransGen (Uploads.Careful services maxUploads ttl) Uploads.new s) :
    s.registry.uploads.length + s.registry.reservations ≤ maxUploads ∧
      (Holders.Counts holds s.calls fun _ => s.registry.reservations) ∧
      ((∀ i, s.calls i = none) → ∀ now, (∀ u ∈ s.registry.uploads, u.2.2 + ttl < now) →
        (s.registry.reserve maxUploads ttl now).2 = true) := by
  have start : (Uploads.new : Uploads ι).Ok maxUploads :=
    ⟨Nat.zero_le _, ⟨fun _ => ∅, fun _ _ => ⟨nofun, nofun⟩, fun _ => rfl⟩, nofun⟩
  have ok : s.Ok maxUploads := Transition.kept_by_run (fun _ _ => Uploads.Careful.ok) start run
  refine ⟨ok.room, ok.counts, fun ended now expired => ?_⟩
  have none_left : s.registry.reservations = 0 := by
    by_contra some_left
    obtain ⟨i, _, found, _⟩ := ok.counts.exists_of_pos (k := ()) (Nat.pos_of_ne_zero some_left)
    cases (ended i).symm.trans found
  have pruned : (s.registry.pruneLocked ttl now).uploads = [] :=
    filter_eq_nil_iff.mpr fun u mem => by have := expired u mem; simp; omega
  have room : ¬ maxUploads ≤ (s.registry.pruneLocked ttl now).uploads.length +
      (s.registry.pruneLocked ttl now).reservations := by
    rw [pruned]
    exact Nat.not_le.mpr (none_left ▸ positive)
  rw [MultipartRegistry.reserve, if_neg room]

end Runs

theorem exists_reserved : ∃ calls : Unit → Option (Bool × Handler GatewayResponse),
    ReflTransGen (Uploads.Careful sampleServices 1 0) Uploads.new ⟨⟨[], 1⟩, calls⟩ := by
  let s : Uploads Unit := ⟨⟨[], 0⟩, insert empty ()
    (false, createMultipart sampleServices ⟨.s3, ascii "b", ascii "k"⟩ [] samplePrincipal .default)⟩
  have created : Uploads.Careful sampleServices 1 0 Uploads.new s :=
    ⟨none, .create () _ _ _ _ rfl, nofun⟩
  have performs : s.registry.Performs 1 0 0 ⟨[], 1⟩ .reserve true := rfl
  exact ⟨_, (ReflTransGen.single created).tail ⟨none, .call (i := ()) 0 rfl rfl performs, nofun⟩⟩

theorem reservations_never_leaked_reserved :
    ∃ s : Uploads Unit, ReflTransGen (Uploads.Careful sampleServices 1 0) Uploads.new s ∧
      s.registry.uploads.length + s.registry.reservations ≤ 1 ∧
      Holders.Counts holds s.calls fun _ => s.registry.reservations := by
  obtain ⟨_, run⟩ := exists_reserved
  have held := reservations_never_leaked sampleServices 1 0 (by decide) _ run
  exact ⟨_, run, held.1, held.2.1⟩

/-- The call is dropped, its reservation stays, and no upload can be created ever after. -/
theorem reservation_leaked_by_deadline : ∃ s : Uploads Unit,
    ReflTransGen (fun s t => ∃ dropped, Uploads.Step sampleServices 1 0 dropped s t) Uploads.new s ∧
      (∀ i, s.calls i = none) ∧ s.registry.uploads = [] ∧
      ∀ now, (s.registry.reserve 1 0 now).2 = false := by
  obtain ⟨calls, run⟩ := exists_reserved
  have any := ReflTransGen.mono (fun s t ⟨dropped, step, _⟩ =>
    (⟨dropped, step⟩ : ∃ dropped, Uploads.Step sampleServices 1 0 dropped s t)) _ _ run
  exact ⟨_, any.tail ⟨some (), .drop ()⟩, fun i => erase_self calls i, rfl, fun now => rfl⟩

end Talon.Gateway
