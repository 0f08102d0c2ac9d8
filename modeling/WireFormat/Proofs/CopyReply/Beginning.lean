/-
# The beginning of a reply

A byte string that does not decode as a reply may still be the beginning of one
that does. Which of the two it is shows in the error. If the input was cut off,
more bytes may complete it, but not fewer than are missing; if a rule of the
format was broken, no bytes mend it, and the error is the same for every byte
string that goes on from there. So a beginning of a byte string that decodes
either decodes or is cut off.

Key definitions: `CopyReply.Settles`.
Key theorems: `CopyReply.Clause.incremental_read`, `CopyReply.settles`.
-/
import WireFormat.Proofs.CopyReply.Clause
import WireFormat.Proofs.Incremental

namespace WireFormat
namespace CopyReply

open Reader

/-! ### Clauses are read incrementally -/

namespace Clause

theorem incremental_readIndex (key : Key) : (readIndex key).Incremental :=
  (key.incremental_expect .varint).bind fun _ =>
    Payload.incremental_int32.bind fun _ => incremental_pure _

theorem incremental_readError (key : Key) : (readError key).Incremental :=
  (key.incremental_expect .lengthDelimited).bind fun _ =>
    Payload.incremental_text.bind fun _ => incremental_pure _

theorem incremental_afterKey (limits : Limits) (key : Key) :
    (afterKey limits key).Incremental := by
  unfold afterKey payload?
  by_cases h1 : key.field = indexField
  · rw [if_pos h1]
    exact (incremental_readIndex key).map Sum.inl
  · rw [if_neg h1]
    by_cases h2 : key.field = errorField
    · rw [if_pos h2]
      exact (incremental_readError key).map Sum.inl
    · rw [if_neg h2]
      exact (Skip.incremental_field _ key).bind fun _ => incremental_pure _

theorem incremental_read (limits : Limits) : (read limits).Incremental :=
  (Key.incremental_read.bind (incremental_afterKey limits)).captured.map close

end Clause

/-! ### What decoding says of a beginning -/

/-- What decoding says of `p`, when `p` may go on with any `s` within the length
limit. -/
inductive Settles (limits : Limits) (p : Bytes) : Prop where
  /-- A reply. -/
  | reply (m : CopyReply) :
      (Message.decode limits p : Report CopyReply).result = .ok m → Settles limits p
  /-- A broken rule, whatever follows. -/
  | malformed (cause : Malformation) :
      (Message.decode limits p : Report CopyReply).result = .error (.malformed cause) →
      (∀ s, (p ++ s).length ≤ limits.maxMessageLength.toNat →
        (Message.decode limits (p ++ s) : Report CopyReply).result = .error (.malformed cause)) →
      Settles limits p
  /-- Cut off, for as long as fewer bytes are left than are needed. -/
  | cutOff (needed remaining : Nat) :
      (Message.decode limits p : Report CopyReply).result = .error (.truncated needed remaining) →
      remaining < needed →
      (∀ s, (p ++ s).length ≤ limits.maxMessageLength.toNat → remaining + s.length < needed →
        (Message.decode limits (p ++ s) : Report CopyReply).result =
          .error (.truncated needed (remaining + s.length))) →
      Settles limits p

/-- Decoding settles whatever is within the length limit. -/
theorem settles {limits : Limits} {p : Bytes} (hp : p.length ≤ limits.maxMessageLength.toNat) :
    Settles limits p := by
  have hread := (Clause.incremental_read limits).itemsSettle (Clause.consumes_read limits) p
  cases hread with
  | complete cs h =>
    refine .reply (ofClauses cs) ?_
    rw [result_decode_of_le hp, clauses, h]
    rfl
  | malformed cs cause rest h =>
    have hall : ∀ s, (p ++ s).length ≤ limits.maxMessageLength.toNat →
        (Message.decode limits (p ++ s) : Report CopyReply).result =
          .error (.malformed cause) := by
      intro s hlen
      rw [result_decode_of_le hlen, clauses, h s]
      rfl
    have hself := hall [] (by simpa using hp)
    rw [List.append_nil] at hself
    exact .malformed cause hself hall
  | cutOff cs needed rest hlt h =>
    have hall : ∀ s, (p ++ s).length ≤ limits.maxMessageLength.toNat →
        rest.length + s.length < needed →
        (Message.decode limits (p ++ s) : Report CopyReply).result =
          .error (.truncated needed (rest.length + s.length)) := by
      intro s hlen hs
      rw [← List.length_append] at hs ⊢
      rw [result_decode_of_le hlen, clauses, h s hs]
      rfl
    have hself := hall [] (by simpa using hp) (by simpa using hlt)
    rw [List.append_nil] at hself
    exact .cutOff needed rest.length hself hlt hall

/-- **A broken rule is final.** If a byte string breaks a rule of the format, so does
every byte string within the length limit that goes on from it; a beginning of what
decodes either decodes or is cut off. -/
theorem decode_malformed_final (limits : Limits) :
    (∀ (p s : Bytes) (cause : Malformation),
      (p ++ s).length ≤ limits.maxMessageLength.toNat →
      (Message.decode limits p : Report CopyReply).result = .error (.malformed cause) →
      (Message.decode limits (p ++ s) : Report CopyReply).result = .error (.malformed cause)) ∧
    ∀ (p s : Bytes) (m : CopyReply),
      (Message.decode limits (p ++ s) : Report CopyReply).result = .ok m →
      (∃ m', (Message.decode limits p : Report CopyReply).result = .ok m') ∨
        ∃ needed remaining,
          (Message.decode limits p : Report CopyReply).result =
            .error (.truncated needed remaining) ∧
          remaining < needed ∧ needed ≤ remaining + s.length := by
  have hbegin : ∀ {p s : Bytes}, (p ++ s).length ≤ limits.maxMessageLength.toNat →
      p.length ≤ limits.maxMessageLength.toNat := by
    intro p s hlen
    rw [List.length_append] at hlen
    omega
  refine ⟨fun p s cause hlen hp => ?_, fun p s m hm => ?_⟩
  · cases settles (hbegin hlen) with
    | reply m h =>
      rw [h] at hp
      cases hp
    | malformed cause' h hall =>
      rw [h] at hp
      cases hp
      exact hall s hlen
    | cutOff needed remaining h _ _ =>
      rw [h] at hp
      cases hp
  · have hlen : (p ++ s).length ≤ limits.maxMessageLength.toNat :=
      Message.length_le_of_result_mergeBytes hm
    cases settles (hbegin hlen) with
    | reply m' h => exact .inl ⟨m', h⟩
    | malformed cause _ hall =>
      rw [hall s hlen] at hm
      cases hm
    | cutOff needed remaining h hlt hall =>
      refine .inr ⟨needed, remaining, h, hlt, ?_⟩
      -- with fewer bytes than are missing, `p ++ s` would be cut off as well
      by_contra hshort
      rw [hall s hlen (by omega)] at hm
      cases hm

/-- A text of one byte that begins a character stays refused when the byte that would
complete it follows; one of two bytes that is cut off there becomes a reply. -/
theorem decode_malformed_final_text :
    (Message.decode {} ([0x08, 0x05, 0x12, 0x01, 0xC3] ++ [0xA9]) : Report CopyReply).result =
      .error (.malformed (.invalidText (.incomplete 0))) ∧
    (Message.decode {} ([0x08, 0x05, 0x12, 0x02, 0xC3] ++ [0xA9]) : Report CopyReply).result =
      .ok { outcome := .error "é" } ∧
    ∃ needed remaining,
      (Message.decode {} [0x08, 0x05, 0x12, 0x02, 0xC3] : Report CopyReply).result =
        .error (.truncated needed remaining) ∧ remaining < needed ∧ needed ≤ remaining + 1 := by
  obtain ⟨hfinal, hbegin⟩ := decode_malformed_final {}
  have hbroken : (Message.decode {} [0x08, 0x05, 0x12, 0x01, 0xC3] : Report CopyReply).result =
      .error (.malformed (.invalidText (.incomplete 0))) := by decide +kernel
  have hwhole : (Message.decode {} ([0x08, 0x05, 0x12, 0x02, 0xC3] ++ [0xA9]) :
      Report CopyReply).result = .ok { outcome := .error "é" } := by decide +kernel
  have hpart : ¬ ∃ m, (Message.decode {} [0x08, 0x05, 0x12, 0x02, 0xC3] :
      Report CopyReply).result = .ok m := by
    have hcut : (Message.decode {} [0x08, 0x05, 0x12, 0x02, 0xC3] : Report CopyReply).result =
        .error (.truncated 2 1) := by decide +kernel
    rintro ⟨m, hm⟩
    rw [hcut] at hm
    cases hm
  refine ⟨hfinal _ [0xA9] _ (by decide) hbroken, hwhole, ?_⟩
  exact (hbegin _ _ _ hwhole).resolve_left hpart

end CopyReply
end WireFormat
