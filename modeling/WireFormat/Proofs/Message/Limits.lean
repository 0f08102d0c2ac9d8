/-
# Limits only cut off

What a decoder does under tight limits it does under looser ones as well, unless
it stops at one of the tight limits itself. The length of a message is looked at
before anything else. The limit on open groups is looked at when a group starts;
until then, and after it if the group may start, two readers under different
limits take the same bytes and find the same values and errors. So they agree, or
the tighter one stops with the error of its own limit, and this is kept by
everything that is put together from such readers.

Key definitions: `Reader.AgreesUnless`.
Key theorems: `Reader.AgreesUnless.bind`, `Reader.AgreesUnless.untilSome`,
`Skip.agreesUnless_group`, `Message.mergeEntries_agree`, `Message.mergeBytes_agree`.
-/
import WireFormat.CopyReply
import WireFormat.Proofs.Items

namespace WireFormat
namespace Reader

variable {α β : Type} {e : Error}

/-! ### Readers that agree -/

/-- `r` does what `r'` does, on the same bytes, unless it stops with `e`. -/
def AgreesUnless (e : Error) (r r' : Reader α) : Prop :=
  ∀ bs, r.run bs = r'.run bs ∨ ∃ rest, r.run bs = (.error e, rest)

theorem AgreesUnless.refl (r : Reader α) : AgreesUnless e r r :=
  fun _ => .inl rfl

theorem agreesUnless_fail (r' : Reader α) : AgreesUnless e (fail e) r' :=
  fun bs => .inr ⟨bs, rfl⟩

/-- What follows readers that agree is run on the same value and bytes. -/
theorem AgreesUnless.bind {r r' : Reader α} {f f' : α → Reader β} (hr : AgreesUnless e r r')
    (hf : ∀ a, AgreesUnless e (f a) (f' a)) : AgreesUnless e (r >>= f) (r' >>= f') := by
  intro bs
  rcases hr bs with heq | ⟨rest, hstop⟩
  · rw [run_bind, run_bind, ← heq]
    rcases r.run bs with ⟨e' | a, rest⟩
    · exact .inl rfl
    · exact hf a rest
  · exact .inr ⟨rest, run_bind_of_error hstop⟩

theorem AgreesUnless.captured {r r' : Reader α} (hr : AgreesUnless e r r') :
    AgreesUnless e r.captured r'.captured := by
  intro bs
  rcases hr bs with heq | ⟨rest, hstop⟩
  · refine .inl ?_
    simp only [Reader.captured, heq]
  · refine .inr ⟨rest, ?_⟩
    simp only [Reader.captured, hstop]

theorem AgreesUnless.untilSome {round round' : Reader (Option α)}
    (hr : AgreesUnless e round round') (hc : round.Consumes) (hc' : round'.Consumes) :
    AgreesUnless e (untilSome round hc) (untilSome round' hc') := by
  intro bs
  rw [run_untilSome, run_untilSome round']
  rcases hr bs with heq | ⟨rest, hstop⟩
  · rw [← heq]
    rcases hrun : round.run bs with ⟨e' | _ | a, rest⟩
    · exact .inl rfl
    · have hlt : rest.length < bs.length := hc bs none rest hrun
      exact AgreesUnless.untilSome hr hc hc' rest
    · exact .inl rfl
  · rw [hstop]
    exact .inr ⟨rest, rfl⟩
termination_by bs => bs.length

end Reader

open Reader

namespace Skip

/-! ### Passing over payloads -/

variable {e : Error}

theorem agreesUnless_payload {group group' : UInt32 → Reader Unit}
    (hg : ∀ f, AgreesUnless e (group f) (group' f)) (key : Key) :
    AgreesUnless e (payload group key) (payload group' key) := by
  unfold payload
  cases key.type with
  | startGroup => exact hg key.field
  | varint | fixed64 | lengthDelimited | fixed32 | endGroup => exact .refl _

theorem agreesUnless_groupRound {skip skip' : Key → Reader Unit}
    (hs : ∀ key, AgreesUnless e (skip key) (skip' key)) (f : UInt32) :
    AgreesUnless e (groupRound skip f) (groupRound skip' f) := by
  refine (AgreesUnless.refl _).bind fun key => ?_
  split
  · exact .refl _
  · exact (hs key).bind fun _ => .refl _

/-- Where fewer groups may be opened, a group is passed over in the same way or
one inside it is too deep. -/
theorem agreesUnless_group {budget budget' : Nat} (h : budget ≤ budget') (limit limit' : Nat)
    (f : UInt32) :
    AgreesUnless (.malformed (.groupsTooDeep limit)) (group limit budget f)
      (group limit' budget' f) := by
  induction budget generalizing budget' f with
  | zero => exact agreesUnless_fail _
  | succ budget ih =>
    cases budget' with
    | zero => omega
    | succ budget' =>
      have hinner := agreesUnless_payload (ih (Nat.le_of_succ_le_succ h))
      exact (agreesUnless_groupRound hinner f).untilSome _ _

theorem agreesUnless_field {limit limit' : Nat} (h : limit ≤ limit') (key : Key) :
    AgreesUnless (.malformed (.groupsTooDeep limit)) (field limit key) (field limit' key) :=
  agreesUnless_payload (agreesUnless_group h limit limit') key

end Skip

namespace Message

variable {α : Type} [Message α] {limits limits' : Limits}

/-! ### Decoding -/

theorem agreesUnless_readEntry (h : limits.maxGroupDepth ≤ limits'.maxGroupDepth) (m : α) :
    AgreesUnless (.malformed (.groupsTooDeep limits.maxGroupDepth.toNat)) (readEntry limits m)
      (readEntry limits' m) := by
  refine (AgreesUnless.refl _).bind fun key => ?_
  split
  · exact .refl _
  · exact (Skip.agreesUnless_field (UInt32.le_iff_toNat_le.1 h) key).bind fun _ => .refl _

theorem agreesUnless_mergeEntry (h : limits.maxGroupDepth ≤ limits'.maxGroupDepth) (m : α) :
    AgreesUnless (.malformed (.groupsTooDeep limits.maxGroupDepth.toNat)) (mergeEntry limits m)
      (mergeEntry limits' m) :=
  (agreesUnless_readEntry h m).captured.bind fun _ => .refl _

theorem mergeEntries_agree (h : limits.maxGroupDepth ≤ limits'.maxGroupDepth) (m : α)
    (bs : Bytes) :
    mergeEntries limits m bs = mergeEntries limits' m bs ∨
      (mergeEntries limits m bs).result =
        .error (.malformed (.groupsTooDeep limits.maxGroupDepth.toNat)) := by
  by_cases hne : bs = []
  · rw [hne, mergeEntries_nil, mergeEntries_nil]
    exact .inl rfl
  · rcases agreesUnless_mergeEntry h m bs with heq | ⟨rest, hstop⟩
    · rcases hrun : (mergeEntry limits m).run bs with ⟨e | ⟨m', events⟩, rest⟩
      · rw [mergeEntries_of_error hne hrun, mergeEntries_of_error hne (heq ▸ hrun)]
        exact .inl rfl
      · have hlt : rest.length < bs.length := consumes_mergeEntry limits m bs _ rest hrun
        have hrun' : (mergeEntry limits' m).run bs = (.ok (m', events), rest) := heq ▸ hrun
        rw [mergeEntries_of_ok hrun, mergeEntries_of_ok hrun']
        rcases mergeEntries_agree h m' rest with hrest | hdeep
        · exact .inl (by rw [hrest])
        · exact .inr hdeep
    · rw [mergeEntries_of_error hne hstop]
      exact .inr rfl
termination_by bs.length

/-- Decoding within both length limits is the same, or ends where a group is too
deep. -/
theorem mergeBytes_agree (hlength : limits.maxMessageLength ≤ limits'.maxMessageLength)
    (hdepth : limits.maxGroupDepth ≤ limits'.maxGroupDepth) (m : α) {bs : Bytes}
    (hle : bs.length ≤ limits.maxMessageLength.toNat) :
    mergeBytes limits m bs = mergeBytes limits' m bs ∨
      (mergeBytes limits m bs).result =
        .error (.malformed (.groupsTooDeep limits.maxGroupDepth.toNat)) := by
  have hle' : bs.length ≤ limits'.maxMessageLength.toNat :=
    Nat.le_trans hle (UInt64.le_iff_toNat_le.1 hlength)
  rcases mergeEntries_agree hdepth m bs with heq | hdeep
  · refine .inl ?_
    rw [mergeBytes, mergeBytes, Limits.checkLength_eq_ok_iff.2 hle,
      Limits.checkLength_eq_ok_iff.2 hle', heq]
  · exact .inr ((result_mergeBytes_of_le hle m).trans hdeep)

/-- **Limits only cut off.** Under limits that are no looser, decoding gives the same
report or fails at one of these limits; so what decodes still decodes when they are
raised, to the same message. -/
theorem decode_limits_only_cut_off
    (hlength : limits.maxMessageLength ≤ limits'.maxMessageLength)
    (hdepth : limits.maxGroupDepth ≤ limits'.maxGroupDepth) (bs : Bytes) :
    ((decode limits bs : Report α) = decode limits' bs ∨
      limits.maxMessageLength.toNat < bs.length ∧
        (decode limits bs : Report α).result =
          .error (.malformed (.messageTooLong bs.length limits.maxMessageLength.toNat)) ∨
      bs.length ≤ limits.maxMessageLength.toNat ∧
        (decode limits bs : Report α).result =
          .error (.malformed (.groupsTooDeep limits.maxGroupDepth.toNat))) ∧
    ∀ m : α, (decode limits bs : Report α).result = .ok m →
      (decode limits' bs : Report α).result = .ok m ∧
        (decode limits' bs : Report α).events = (decode limits bs : Report α).events := by
  refine ⟨?_, fun m hm => ?_⟩
  · by_cases hle : bs.length ≤ limits.maxMessageLength.toNat
    · rcases mergeBytes_agree hlength hdepth (empty : α) hle with heq | hdeep
      · exact .inl heq
      · exact .inr (.inr ⟨hle, hdeep⟩)
    · have hlt : limits.maxMessageLength.toNat < bs.length := by omega
      exact .inr (.inl ⟨hlt, result_mergeBytes_of_lt hlt empty⟩)
  · have hle := length_le_of_result_mergeBytes hm
    rcases mergeBytes_agree hlength hdepth (empty : α) hle with heq | hdeep
    · rw [decode, decode, ← heq]
      exact ⟨hm, rfl⟩
    · rw [decode, hdeep] at hm
      cases hm

/-- A group and an index decode where one group may be open, and so they do under
the standard limits; a group inside a group does not, for that limit alone. -/
theorem decode_limits_only_cut_off_group :
    let tight : Limits := { maxMessageLength := 6, maxGroupDepth := 1 }
    let m : CopyReply := { outcome := .index 5, unknown := [⟨⟨3, .startGroup⟩, [0x1B, 0x1C]⟩] }
    (decode {} [0x1B, 0x1C, 0x08, 0x05] : Report CopyReply).result = .ok m ∧
    (decode tight [0x1B, 0x23, 0x24, 0x1C] : Report CopyReply).result =
      .error (.malformed (.groupsTooDeep 1)) := by
  intro tight m
  have hlength : tight.maxMessageLength ≤ ({} : Limits).maxMessageLength := by decide
  have hdepth : tight.maxGroupDepth ≤ ({} : Limits).maxGroupDepth := by decide
  have hshallow : (decode tight [0x1B, 0x1C, 0x08, 0x05] : Report CopyReply).result = .ok m := by
    decide +kernel
  have hchanged : (decode tight [0x1B, 0x23, 0x24, 0x1C] : Report CopyReply).result ≠
      (decode {} [0x1B, 0x23, 0x24, 0x1C] : Report CopyReply).result := by decide +kernel
  have hcases : (decode tight [0x1B, 0x23, 0x24, 0x1C] : Report CopyReply) = _ ∨ _ :=
    (decode_limits_only_cut_off hlength hdepth _).1
  refine ⟨((decode_limits_only_cut_off hlength hdepth _).2 m hshallow).1, ?_⟩
  rcases hcases with heq | ⟨hlong, -⟩ | ⟨-, hdeep⟩
  · exact absurd (congrArg Report.result heq) hchanged
  · exact absurd hlong (by decide)
  · exact hdeep

end Message
end WireFormat
