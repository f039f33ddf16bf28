import Talon.Lib.Fallible
import Talon.SmallStore.Snapshot

/-!
# The bytes of an event, in both directions

`Event::encode`, `Event::decode`, `Machine::encoded_len` and `format::view`.  What is decoded is
encoded to the same bytes again, so every event and every key has one spelling.  In the other
direction two kinds of events are lost: a replacement by segment zero reads back as a retirement,
and the record of an extent above the limit of `decode` is written but never read.
-/

set_option autoImplicit false

namespace Talon.SmallStore

open Talon.Core Wire List Fallible

variable {b rest : Bytes}

section Keys

theorem u64_ok {n : Nat} (h : u64 b = .ok (n, rest)) : b = leBytes 8 n ++ rest ∧ n < 2 ^ 64 := by
  unfold u64 fill at h
  split at h
  · rename_i read
    cases h
    exact readLe_some read
  · cases h

theorem u32_ok {n : Nat} (h : u32 b = .ok (n, rest)) : b = leBytes 4 n ++ rest ∧ n < 2 ^ 32 := by
  unfold u32 fill at h
  split at h
  · rename_i read
    cases h
    exact readLe_some read
  · cases h

theorem viewString_ok {s : Str} (h : viewString b = .ok (s, rest)) :
    b = encodeString s ++ rest := by
  obtain ⟨⟨len, more⟩, read, string⟩ := bind_ok h
  obtain ⟨bytes, -⟩ := u32_ok read
  change (if len > more.length then _ else _) = _ at string
  split at string
  · cases string
  rename_i enough
  split at string
  · cases string
  rename_i text decoded
  cases string
  have chars := utf8_of_ofUtf8 decoded
  have length : (utf8 s).length = len := by
    rw [chars, length_take]
    omega
  rw [bytes, encodeString, length, chars, append_assoc, take_append_drop]

theorem byte_parts (b : UInt8) : (if b &&& 0x80 ≠ 0 then 0x80 else 0) ||| (b &&& 0x7f) = b := by
  have all : ∀ n : Fin 256, (if UInt8.ofNat n &&& 0x80 ≠ 0 then 0x80 else 0) |||
      (UInt8.ofNat n &&& 0x7f) = UInt8.ofNat n := by decide +kernel
  have here := all ⟨b.toNat, b.toNat_lt⟩
  rwa [UInt8.ofNat_toNat] at here

theorem viewBackend_ok {tag : UInt8} {backend : Backend} (h : viewBackend tag = .ok backend) :
    (if tag &&& 0x80 ≠ 0 then 0x80 else 0) ||| backendTag backend = tag := by
  have low : tag &&& 0x7f = backendTag backend := by
    unfold viewBackend at h
    split at h <;> first | (cases h; assumption) | cases h
  rw [← low]
  exact byte_parts tag

theorem encodeKey_view {id : SmallKey} (h : view b = .ok id) : encodeKey id = .ok b := by
  unfold view at h
  split at h
  · cases h
  rename_i short
  split at h
  · cases h
  rename_i tag rest
  obtain ⟨backend, known, h₁⟩ := bind_ok h
  obtain ⟨⟨offset, _⟩, read₁, h₂⟩ := bind_ok h₁
  obtain ⟨⟨size, _⟩, read₂, h₃⟩ := bind_ok h₂
  obtain ⟨⟨bucket, _⟩, read₃, h₄⟩ := bind_ok h₃
  obtain ⟨⟨path, _⟩, read₄, h₅⟩ := bind_ok h₄
  obtain ⟨⟨version, rest₅⟩, read₅, last⟩ := bind_ok h₅
  change (if rest₅.isEmpty then _ else _) = _ at last
  split at last
  · rename_i finished
    have bytes : rest = leBytes 8 offset ++ leBytes 4 size ++ encodeString bucket ++
        encodeString path ++ encodeString version := by
      rw [(u64_ok read₁).1, (u32_ok read₂).1, viewString_ok read₃, viewString_ok read₄,
        viewString_ok read₅, isEmpty_iff.mp finished]
      simp only [append_assoc, append_nil]
    have length : keyLen id = (tag :: rest).length := by
      cases last
      simp only [keyLen, bytes, length_cons, length_append, length_leBytes,
        length_encodeString]
      omega
    have valid : validateKey id = .ok () := by
      unfold validateKey
      rw [length, if_neg short]
      cases last
      split_ifs <;> rfl
    have tagged : (if id.kind = .exactRange then 0x80 else 0) |||
      backendTag id.block.object.backend =
        tag := by
      cases last
      have whole := viewBackend_ok known
      by_cases exact_ : tag &&& 0x80 ≠ 0
      · rw [if_pos exact_] at whole
        simp only [if_pos exact_]
        exact whole
      · rw [if_neg exact_] at whole
        simp only [if_neg exact_]
        exact whole
    unfold encodeKey
    rw [valid, ok_bind]
    dsimp only
    rw [tagged, bytes]
    cases last
    rfl
  · cases last

end Keys

variable {e : Event}

namespace Event

/-- An inserted record has a valid key and extent. -/
def Accepted : Event → Prop
  | .insert _ _ _ record => validateKey record.key = .ok () ∧
      record.key.validExtent record.len = true
  | _ => True

/-- The extent is within the limit of `decode`, and no replacement names segment zero. -/
def Spelled : Event → Prop
  | .insert _ _ _ record => record.len ≤ Records.maxLen
  | .replace _ new => new ≠ some 0
  | _ => True

def encodedLen : Event → Nat
  | .insert _ _ _ record => 41 + keyLen record.key
  | .delete _ _ | .replace _ _ | .flush _ _ => 17
  | .sealSegment _ | .setNext _ | .recover _ => 9

theorem length_u64s (ns : List Nat) : (u64s ns).length = 8 * ns.length := by
  induction ns with
  | nil => rfl
  | cons n ns ih =>
    have split := congrArg length (u64s_cons n ns [])
    simp only [append_nil, length_append, length_leBytes] at split
    rw [split, ih, length_cons]
    omega

theorem encode_length (accepted : e.Accepted) :
    ∃ b, e.encode = .ok b ∧ b.length = e.encodedLen := by
  cases e with
  | insert =>
    obtain ⟨_, encoded, length⟩ := encodeKey_ok accepted.1
    refine ⟨_, by rw [encode, encoded]; rfl, ?_⟩
    rw [length_cons, length_append, length_u64s, length, encodedLen]
    simp only [length_cons, length_nil]
    omega
  | delete | sealSegment | flush | recover | setNext | replace =>
    exact ⟨_, rfl, by rw [length_cons, length_u64s]; rfl⟩

theorem u64s_read {n : Nat} (fits : n < 2 ^ 64) (ns : List Nat) :
    u64 (u64s (n :: ns)) = .ok (n, u64s ns) := by
  have split := u64s_cons n ns []
  rw [append_nil, append_nil] at split
  rw [split, u64_leBytes fits]

theorem decode_encode (fits : e.Fits) (accepted : e.Accepted) (spelled : e.Spelled) :
    ∃ b, e.encode = .ok b ∧ decode b = .ok e := by
  cases e with
  | insert _ _ _ record =>
    obtain ⟨slotFits, segmentFits, offsetFits, lenFits, checksumFits, keyFits⟩ := fits
    obtain ⟨key, encoded, -⟩ := encodeKey_ok accepted.1
    have within : ¬(record.len > Records.maxLen ∨ ¬record.key.validExtent record.len) := by
      rintro (long | bad)
      · exact Nat.not_lt.mpr spelled long
      · exact bad accepted.2
    refine ⟨_, by rw [encode, encoded]; rfl, ?_⟩
    change decodeInsert _ = _
    simp only [decodeInsert, u64s_cons, u64s_nil, u64_leBytes slotFits, u64_leBytes segmentFits,
      u64_leBytes offsetFits, u64_leBytes lenFits, u64_leBytes checksumFits, ok_bind,
      view_encodeKey keyFits encoded]
    rw [if_neg within]
  | delete | flush =>
    refine ⟨_, rfl, ?_⟩
    simp only [decode, u64s_read fits.1, u64s_read fits.2, ok_bind]
    rfl
  | sealSegment segment | recover segment | setNext segment =>
    refine ⟨_, rfl, ?_⟩
    simp only [decode, u64s_read (show segment < 2 ^ 64 from fits), ok_bind]
    rfl
  | replace _ new =>
    refine ⟨_, rfl, ?_⟩
    cases new with
    | none =>
      simp only [decode, u64s_read fits.1, Option.getD_none, u64s_read (show 0 < 2 ^ 64 by decide),
        ok_bind]
      rfl
    | some id =>
      have nonzero : id ≠ 0 := fun zero => spelled (congrArg some zero)
      simp only [decode, u64s_read fits.1, Option.getD_some, u64s_read (fits.2 id rfl), ok_bind,
        if_pos nonzero]
      rfl

theorem finish_ok {e' : Event} (h : finish e b = .ok e') : e = e' ∧ b = [] := by
  unfold finish at h
  split at h
  · rename_i last
    cases h
    exact ⟨rfl, isEmpty_iff.mp last⟩
  · cases h

theorem one_ok {f : Nat → Event} (h : (u64 b >>= fun x => finish (f x.1) x.2) = .ok e) :
    ∃ n, f n = e ∧ b = u64s [n] := by
  obtain ⟨⟨n, rest⟩, read, h⟩ := bind_ok h
  obtain ⟨same, rfl : rest = []⟩ := finish_ok h
  refine ⟨n, same, ?_⟩
  rw [(u64_ok read).1]
  rfl

theorem two_ok {f : Nat → Nat → Event}
    (h : (u64 b >>= fun x => u64 x.2 >>= fun y => finish (f x.1 y.1) y.2) = .ok e) :
    ∃ n m, f n m = e ∧ b = u64s [n, m] := by
  obtain ⟨⟨n, rest⟩, read, h⟩ := bind_ok h
  obtain ⟨m, same, rfl : rest = _⟩ := one_ok h
  refine ⟨n, m, same, ?_⟩
  rw [(u64_ok read).1]
  rfl

theorem encode_decode (h : decode b = .ok e) : e.encode = .ok b := by
  unfold decode at h
  split at h
  · cases h
  split at h
  · obtain ⟨n, rfl, rfl⟩ := one_ok h
    rfl
  · obtain ⟨⟨_, _⟩, read₁, h₁⟩ := bind_ok h
    obtain ⟨⟨_, _⟩, read₂, h₂⟩ := bind_ok h₁
    obtain ⟨⟨_, _⟩, read₃, h₃⟩ := bind_ok h₂
    obtain ⟨⟨_, _⟩, read₄, h₄⟩ := bind_ok h₃
    obtain ⟨⟨_, _⟩, read₅, h₅⟩ := bind_ok h₄
    obtain ⟨_, viewed, last⟩ := bind_ok h₅
    split at last
    · cases last
    · cases last
      rw [encode, encodeKey_view viewed, (u64_ok read₁).1, (u64_ok read₂).1, (u64_ok read₃).1,
        (u64_ok read₄).1, (u64_ok read₅).1]
      simp only [ok_bind, u64s_cons, u64s_nil]
      rfl
  · obtain ⟨n, m, rfl, rfl⟩ := two_ok h
    rfl
  · obtain ⟨n, rfl, rfl⟩ := one_ok h
    rfl
  · obtain ⟨n, m, rfl, rfl⟩ := two_ok h
    rfl
  · obtain ⟨n, rfl, rfl⟩ := one_ok h
    rfl
  · obtain ⟨n, m, rfl, rfl⟩ :=
      two_ok (f := fun old new => .replace old (if new ≠ 0 then some new else none)) h
    by_cases zero : m = 0
    · rw [if_neg (fun ne => ne zero), zero]
      rfl
    · rw [if_pos zero]
      rfl
  · cases h

end Event

theorem bind_ok_iff {α β : Type} {x : Result α} {f : α → Result β} {y : β} :
    (x >>= f) = .ok y ↔ ∃ a, x = .ok a ∧ f a = .ok y :=
  ⟨bind_ok, fun ⟨_, first, last⟩ => by rw [first]; exact last⟩

theorem view_fits {id : SmallKey} (h : view b = .ok id) : id.Fits := by
  unfold view at h
  split at h
  · cases h
  · split at h
    · cases h
    · simp only [bind_ok_iff] at h
      obtain ⟨_, _, _, offset, _, size, _, _, _, _, _, _, last⟩ := h
      split at last
      · cases last
        exact ⟨(u64_ok offset).2, (u32_ok size).2⟩
      · cases last

theorem Event.decode_fits (h : Event.decode b = .ok e) : e.Fits := by
  have small : ∀ {b : Bytes} {x}, u64 b = .ok x → x.1 < 2 ^ 64 := fun {_} {_} read =>
    (u64_ok read).2
  unfold decode decodeInsert finish at h
  split at h
  · cases h
  · split at h <;> simp only [bind_ok_iff, reduceCtorEq] at h <;> grind [Fits, view_fits]

/-- An accepted event that `decode` can spell is read back, in as many bytes as were reserved for
it; and every accepted byte string is the only one for its event or its key. -/
theorem event_codec_canonical :
    (∀ e : Event, e.Fits → e.Accepted → ∃ b, e.encode = .ok b ∧ b.length = e.encodedLen ∧
        (e.Spelled → Event.decode b = .ok e)) ∧
      (∀ (b : Bytes) (e : Event), Event.decode b = .ok e → e.encode = .ok b) ∧
      ∀ (b : Bytes) (id : SmallKey), view b = .ok id → encodeKey id = .ok b := by
  refine ⟨fun e fits accepted => ?_, fun b e => Event.encode_decode, fun b id => encodeKey_view⟩
  obtain ⟨b, encoded, length⟩ := Event.encode_length accepted
  refine ⟨b, encoded, length, fun spelled => ?_⟩
  obtain ⟨_, again, decoded⟩ := Event.decode_encode fits accepted spelled
  cases encoded.symm.trans again
  exact decoded

section Sample

def sampleInsert (len : Nat) : Event :=
  .insert 0 1 0 ⟨⟨⟨⟨.s3, [], []⟩, 0, 1 <<< 28, []⟩, .whole⟩, len, 0⟩

end Sample

theorem event_codec_canonical_insert :
    ∃ b, (sampleInsert 5).encode = .ok b ∧ Event.decode b = .ok (sampleInsert 5) := by
  obtain ⟨b, encoded, -, decoded⟩ := event_codec_canonical.1 (sampleInsert 5)
    ⟨by decide, by decide, by decide, by decide, by decide, ⟨by decide, by decide⟩⟩
    ⟨by decide, by decide⟩
  exact ⟨b, encoded, decoded (show 5 ≤ Records.maxLen by decide)⟩

/-- A replacement by segment zero comes back as a retirement, and an extent above 128 MiB is written
but not read. -/
theorem event_codec_loses :
    (∃ e : Event, e.Fits ∧ e.Accepted ∧ ∃ b, e.encode = .ok b ∧
      Event.decode b = .ok (.replace 1 none) ∧
        e ≠ .replace 1 none) ∧
      ∃ e : Event, e.Fits ∧ e.Accepted ∧ ∃ b, e.encode = .ok b ∧
        Event.decode b = .error "journal extent" := by
  refine ⟨⟨.replace 1 (some 0), ⟨by decide, fun id same => ?_⟩, trivial, _, rfl, rfl, by decide⟩,
    sampleInsert (1 <<< 27 + 1),
    ⟨by decide, by decide, by decide, by decide, by decide, ⟨by decide, by decide⟩⟩,
    ⟨by decide, by decide⟩, _, rfl, ?_⟩
  · cases same
    decide
  · decide +kernel

end Talon.SmallStore
