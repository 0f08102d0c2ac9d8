/-
# Where a reply is cut off

Decoding that fails leaves a report: the error, and after what happened before it
one last event with the byte it was met at. If the input was cut off, the error
says how many bytes the next read needs and how many are left, and the two can be
taken at their word. The byte of the last event is where the bytes left begin.
Bytes that are added, as long as there are too few of them, are counted among the
bytes left, and change nothing else in the report.

The number of bytes needed comes from one read, whether of a varint, of a payload
of known length or of the next key in a group. Which read it is does not depend on
what is still missing, since the readers are incremental.

Key theorems: `Reader.items_unread_suffix`, `Message.mergeBytes_of_failure`,
`CopyReply.not_failed_of_mem_mergeItems`, `CopyReply.decode_of_failure`,
`CopyReply.decode_append_of_cutOff`.
-/
import WireFormat.Proofs.CopyReply.Beginning

namespace WireFormat
namespace Reader

variable {γ : Type} {r : Reader γ} {h : r.Consumes}

/-- What is unread where reading items stopped is an end piece of the byte string. -/
theorem items_unread_suffix {bs unread : Bytes} {cs : List γ} {e : Error}
    (hi : r.items h bs = ⟨cs, some (e, unread)⟩) : unread <:+ bs := by
  by_cases hne : bs = []
  · rw [hne, items_nil] at hi
    cases hi
  · have hrest := r.rest_suffix bs
    rcases hr : r.run bs with ⟨e' | c, rest⟩
    · rw [items_of_error hne hr] at hi
      cases hi
      rwa [hr] at hrest
    · rw [items_of_ok hr, Items.mk.injEq] at hi
      have hlt : rest.length < bs.length := h bs c rest hr
      have htail : r.items h rest = ⟨(r.items h rest).read, some (e, unread)⟩ := by rw [← hi.2]
      rw [hr] at hrest
      exact (items_unread_suffix htail).trans hrest
termination_by bs.length

end Reader

namespace Message

variable {α γ : Type} [Message α]

/-- Decoding that stops at an item reports what the items before it did, then the
failure and the byte it was met at. -/
theorem mergeBytes_of_failure {limits : Limits} {r : Reader γ} {h : r.Consumes}
    {apply : α → γ → α × List Event} (hr : ∀ m, mergeEntry limits m = apply m <$> r) (m : α)
    {bs unread : Bytes} {cs : List γ} {e : Error}
    (hle : bs.length ≤ limits.maxMessageLength.toNat)
    (hi : r.items h bs = ⟨cs, some (e, unread)⟩) :
    mergeBytes limits m bs =
      ⟨.error e, (mergeItems apply m cs).2 ++ [.failed (bs.length - unread.length) e]⟩ := by
  have hpass : mergeEntries limits m bs = ⟨.error e, unread, (mergeItems apply m cs).2⟩ := by
    rw [mergeEntries_eq_of_items h hr, hi]
    rfl
  rw [mergeBytes, Limits.checkLength_eq_ok_iff.2 hle, hpass]

end Message

namespace CopyReply

open Reader

/-! ### The report of a failure -/

theorem not_failed_of_mem_mergeItems {m : CopyReply} {cs : List Clause} {event : Event}
    (hmem : event ∈ (Message.mergeItems Clause.apply m cs).2)
    (position : Nat) (e : Error) : event ≠ .failed position e := by
  induction cs generalizing m with
  | nil => cases hmem
  | cons clause cs ih =>
    rcases List.mem_append.1 hmem with hclause | hlater
    · cases clause with
      | index v | error description =>
        simp only [replace] at hclause
        split at hclause
        · cases hclause
        · rw [List.mem_singleton.1 hclause]
          exact Event.noConfusion
      | unknown entry =>
        rw [List.mem_singleton.1 hclause]
        exact Event.noConfusion
    · exact ih hlater

theorem decode_of_failure {limits : Limits} {bs unread : Bytes} {cs : List Clause} {e : Error}
    (hle : bs.length ≤ limits.maxMessageLength.toNat)
    (hi : clauses limits bs = ⟨cs, some (e, unread)⟩) :
    (Message.decode limits bs : Report CopyReply) =
      ⟨.error e, (Message.mergeItems Clause.apply {} cs).2 ++
        [.failed (bs.length - unread.length) e]⟩ :=
  Message.mergeBytes_of_failure (mergeEntry_eq limits) {} hle hi

/-! ### The report of an input that is cut off -/

/-- Bytes that are added to an input that is cut off, and are still too few, are
unread where the failure was met before. -/
theorem decode_append_of_cutOff {limits : Limits} {bs rest s : Bytes} {cs : List Clause}
    {needed : Nat}
    (hi : ∀ s, (rest ++ s).length < needed → clauses limits (bs ++ s) =
      ⟨cs, some (.truncated needed (rest ++ s).length, rest ++ s)⟩)
    (hs : s.length < needed - rest.length)
    (hle : (bs ++ s).length ≤ limits.maxMessageLength.toNat) :
    (Message.decode limits (bs ++ s) : Report CopyReply) =
      ⟨.error (.truncated needed (rest.length + s.length)),
        (Message.mergeItems Clause.apply {} cs).2 ++
          [.failed (bs.length - rest.length) (.truncated needed (rest.length + s.length))]⟩ := by
  have hshort : (rest ++ s).length < needed := by
    rw [List.length_append]
    omega
  have hposition : (bs ++ s).length - (rest ++ s).length = bs.length - rest.length := by
    rw [List.length_append, List.length_append]
    omega
  rw [decode_of_failure hle (hi s hshort), hposition, List.length_append]

/-- **What is missing is reported truly.** If a byte string is cut off, the failure is
met where the bytes left begin, and fewer bytes than are missing only add to these:
nothing that goes on so decodes. -/
theorem decode_truncated_sound {limits : Limits} {bs : Bytes} {needed remaining : Nat}
    (hcut : (Message.decode limits bs : Report CopyReply).result =
      .error (.truncated needed remaining)) :
    remaining < needed ∧
    (∃ (earlier : List Event) (position : Nat),
      (∀ event ∈ earlier, ∀ position' e, event ≠ .failed position' e) ∧
      position + remaining = bs.length ∧
      (Message.decode limits bs : Report CopyReply) =
        ⟨.error (.truncated needed remaining),
          earlier ++ [.failed position (.truncated needed remaining)]⟩ ∧
      ∀ s : Bytes, s.length < needed - remaining →
        (bs ++ s).length ≤ limits.maxMessageLength.toNat →
        (Message.decode limits (bs ++ s) : Report CopyReply) =
          ⟨.error (.truncated needed (remaining + s.length)),
            earlier ++ [.failed position (.truncated needed (remaining + s.length))]⟩) ∧
    ∀ (s : Bytes) (m : CopyReply),
      (Message.decode limits (bs ++ s) : Report CopyReply).result = .ok m →
      needed - remaining ≤ s.length := by
  have hle : bs.length ≤ limits.maxMessageLength.toNat := by
    by_contra hgt
    rw [Message.decode, Message.result_mergeBytes_of_lt (by omega)] at hcut
    cases hcut
  rw [result_decode_of_le hle] at hcut
  have hread := (Clause.incremental_read limits).itemsSettle (Clause.consumes_read limits) bs
  cases hread with
  | complete cs hi =>
    rw [clauses, hi] at hcut
    cases hcut
  | malformed cs cause rest hi =>
    have hself := hi []
    rw [List.append_nil] at hself
    rw [clauses, hself] at hcut
    cases hcut
  | cutOff cs needed' rest hlt hi =>
    have hself := hi [] (by simpa using hlt)
    rw [List.append_nil, List.append_nil] at hself
    have hrest : rest.length ≤ bs.length := (items_unread_suffix hself).length_le
    rw [clauses, hself] at hcut
    cases hcut
    have hnow := decode_append_of_cutOff (s := []) hi (Nat.sub_pos_of_lt hlt) (by simpa using hle)
    rw [List.append_nil] at hnow
    refine ⟨hlt, ⟨_, bs.length - rest.length, fun _ => not_failed_of_mem_mergeItems, by omega,
      hnow, fun s hs hlen => decode_append_of_cutOff hi hs hlen⟩, fun s m hm => ?_⟩
    by_contra hfew
    rw [decode_append_of_cutOff hi (by omega) (Message.length_le_of_result_mergeBytes hm)] at hm
    cases hm

/-- An index, then a text of five bytes inside a group, of which one byte is there:
three bytes more are too few, and so the failure stays where it was. -/
theorem decode_truncated_sound_group :
    let bs : Bytes := [0x08, 0x05, 0x1B, 0x12, 0x05, 0x61]
    (Message.decode {} bs : Report CopyReply) =
      ⟨.error (.truncated 5 1), [.failed 5 (.truncated 5 1)]⟩ ∧
    (∀ s : Bytes, s.length < 4 → (Message.decode {} (bs ++ s) : Report CopyReply) =
      ⟨.error (.truncated 5 (1 + s.length)), [.failed 5 (.truncated 5 (1 + s.length))]⟩) ∧
    ∀ (s : Bytes) (m : CopyReply),
      (Message.decode {} (bs ++ s) : Report CopyReply).result = .ok m → 4 ≤ s.length := by
  intro bs
  have hcut : (Message.decode {} bs : Report CopyReply).result = .error (.truncated 5 1) := by
    decide +kernel
  have hevents : (Message.decode {} bs : Report CopyReply).events =
      [.failed 5 (.truncated 5 1)] := by decide +kernel
  obtain ⟨-, ⟨earlier, position, -, hposition, hnow, hgrown⟩, hfew⟩ := decode_truncated_sound hcut
  rw [hnow] at hevents
  obtain ⟨rfl, hlast⟩ := List.append_eq_singleton_iff.1 hevents |>.resolve_right (by simp)
  obtain rfl : position = 5 := by
    cases hlast
    rfl
  refine ⟨hnow, fun s hs => hgrown s hs ?_, hfew⟩
  have hten : (bs ++ s).length ≤ 10 := by
    rw [List.length_append]
    show 6 + s.length ≤ 10
    omega
  exact Nat.le_trans hten (by decide)

end CopyReply
end WireFormat
