/-
# Replies read back

A reply is written as the clause of its outcome and the entries it does not know.
It reads back from its bytes exactly if these are within the length limit, no
entry takes the place of an outcome, and no entry nests its groups too deep: an
entry under field 1 or 2 would be read as an outcome or refused.

Key definitions: `CopyReply.Outcome.clause?`, `CopyReply.toClauses`,
`CopyReply.pieces`.
Key theorems: `CopyReply.encode_eq`, `CopyReply.ofClauses_toClauses`,
`CopyReply.forall₂_pieces`, `CopyReply.result_decode_chunks_iff`.
-/
import WireFormat.Proofs.CopyReply.Clause
import WireFormat.Proofs.Entry.WellFormed

namespace WireFormat

/-! ### What is written is in the grammar -/

namespace Grammar

theorem isVarint_encode (v : UInt64) : IsVarint (Varint.encode v) v := by
  obtain ⟨used, hused, hv⟩ := run_varint_eq_ok_iff.1 (Varint.run_read_encode v [])
  rwa [List.append_cancel_right hused]

theorem isKey_encode {key : Key} (hpos : 0 < key.field.toNat) (hmax : key.field.toNat ≤ Key.maxField) :
    IsKey key.encode key := by
  obtain ⟨used, hused, hk⟩ := run_key_eq_ok_iff.1 (Key.run_read_encode hpos hmax [])
  rwa [List.append_cancel_right hused]

end Grammar

namespace CopyReply

open Grammar

theorem encode_eq (m : CopyReply) : Message.encode m = .ok (Message.chunks m).flatten :=
  Message.encode_of_claim_eq m.claimedLength_eq

/-! ### The clauses that a reply is written as -/

/-- The clause that an outcome is written as. -/
def Outcome.clause? : Outcome → Option Clause
  | unset => none
  | index v => some (.index v)
  | error description => some (.error description)

/-- The clauses that a reply is written as. -/
def toClauses (m : CopyReply) : List Clause :=
  m.outcome.clause?.toList ++ m.unknown.map Clause.unknown

/-- The bytes of these clauses, one by one. -/
def pieces (m : CopyReply) : List Bytes :=
  (m.outcome.item?.map fun item => item.chunks.flatten).toList ++ m.unknown.map Entry.raw

theorem flatten_pieces (m : CopyReply) : m.pieces.flatten = (Message.chunks m).flatten := by
  show _ = ((m.outcome.item?.map Item.chunks).getD [] ++ m.unknown.map Entry.raw).flatten
  rw [pieces, List.flatten_append, List.flatten_append]
  cases m.outcome.item? with
  | none => rfl
  | some item => simp

theorem ofClauses_map_unknown (entries : List Entry) :
    ofClauses (entries.map Clause.unknown) = { unknown := entries } := by
  have hnone : (entries.map Clause.unknown).filterMap Clause.outcome? = [] := by
    simp [List.filterMap_map, Clause.outcome?]
  have hall : (entries.map Clause.unknown).filterMap Clause.entry? = entries := by
    simp [List.filterMap_map, Function.comp_def, Clause.entry?]
  rw [ofClauses, hnone, hall]
  rfl

/-- The clauses that a reply is written as tell the reply. -/
theorem ofClauses_toClauses (m : CopyReply) : ofClauses m.toClauses = m := by
  obtain ⟨outcome, unknown⟩ := m
  rw [toClauses, ofClauses_append, ofClauses_map_unknown]
  cases outcome <;> simp [Outcome.clause?, ofClauses, Clause.outcome?, Clause.entry?, merge]

/-! ### The clauses in the grammar -/

theorem isClause_index (depth : Nat) (v : Int32) :
    IsClause depth (Item.int32 indexField v).chunks.flatten (.index v) := by
  have hk : IsKey (Key.encode ⟨indexField, .varint⟩) ⟨indexField, .varint⟩ :=
    isKey_encode (by decide) (by decide)
  have h : IsClause depth _ _ := .index hk (isVarint_encode (Payload.ofInt32 v))
  rw [Payload.toInt32_ofInt32] at h
  simpa [Item.chunks] using h

theorem isClause_error (depth : Nat) {description : String}
    (h : (Text.encode description).length < UInt64.size) :
    IsClause depth (Item.text errorField description).chunks.flatten (.error description) := by
  have hk : IsKey (Key.encode ⟨errorField, .lengthDelimited⟩) ⟨errorField, .lengthDelimited⟩ :=
    isKey_encode (by decide) (by decide)
  have hlen : (Text.encode description).length =
      (UInt64.ofNat (Text.encode description).length).toNat :=
    (UInt64.toNat_ofNat_of_lt' h).symm
  have hc : IsClause depth _ _ := .error hk (isVarint_encode _) hlen
  simpa [Item.chunks, Item.delimitedChunks] using hc

theorem forall₂_pieces {depth : Nat} {m : CopyReply}
    (hlen : (Message.chunks m).flatten.length < UInt64.size)
    (hu : ∀ entry ∈ m.unknown, Foreign entry ∧ IsEntry depth entry) :
    List.Forall₂ (IsClause depth) m.pieces m.toClauses := by
  have houtcome : List.Forall₂ (IsClause depth)
      (m.outcome.item?.map fun item => item.chunks.flatten).toList m.outcome.clause?.toList := by
    cases ho : m.outcome with
    | unset => exact .nil
    | index v => exact .cons (isClause_index depth v) .nil
    | error description =>
      have htext : (Text.encode description).length < UInt64.size := by
        rw [← flatten_pieces, pieces, ho] at hlen
        simp only [Outcome.item?, Option.map_some, Option.toList_some, Item.chunks,
          Item.delimitedChunks, List.flatten_append, List.flatten_cons, List.length_append] at hlen
        omega
      exact .cons (isClause_error depth htext) .nil
  have hunknown : List.Forall₂ (IsClause depth) (m.unknown.map Entry.raw)
      (m.unknown.map Clause.unknown) := by
    rw [List.forall₂_map_left_iff, List.forall₂_map_right_iff, List.forall₂_same]
    intro entry hentry
    exact .unknown (hu entry hentry).1 (hu entry hentry).2
  exact List.rel_append houtcome hunknown

/-! ### Reading back -/

/-- A reply reads back from its chunks exactly if they are within the length
limit and its entries are ones that decoding keeps. -/
theorem result_decode_chunks_iff (m : CopyReply) (limits : Limits) :
    (Message.decode limits (Message.chunks m).flatten : Report CopyReply).result = .ok m ↔
      (Message.chunks m).flatten.length ≤ limits.maxMessageLength.toNat ∧
        ∀ entry ∈ m.unknown, Foreign entry ∧ IsEntry limits.maxGroupDepth.toNat entry := by
  refine ⟨fun h => ?_, fun hx => ?_⟩
  · exact ⟨Message.length_le_of_result_mergeBytes h, fun _ => mem_unknown_of_decode h⟩
  · obtain ⟨hle, hu⟩ := hx
    have hlen : (Message.chunks m).flatten.length < UInt64.size :=
      Nat.lt_of_le_of_lt hle limits.maxMessageLength.toNat_lt
    have hclauses : (clauses limits (Message.chunks m).flatten).result = .ok m.toClauses :=
      result_clauses_eq_ok_iff.2 ⟨m.pieces, flatten_pieces m, forall₂_pieces hlen hu⟩
    exact result_decode_eq_ok_iff_clauses.2 ⟨hle, _, hclauses, (ofClauses_toClauses m).symm⟩

/-- **A reply reads back exactly under three conditions.** What it is encoded as is
within the length limit, no entry is of a field that a reply knows, and every entry can
be passed over under the limits. -/
theorem decode_encode_eq_ok_iff {m : CopyReply} (hwf : ∀ entry ∈ m.unknown, entry.WellFormed)
    (limits : Limits) :
    ∃ bs, Message.encode m = .ok bs ∧
      ((Message.decode limits bs : Report CopyReply).result = .ok m ↔
        Message.claimedLength m ≤ limits.maxMessageLength.toNat ∧
          (∀ entry ∈ m.unknown, entry.key.field ≠ indexField ∧ entry.key.field ≠ errorField) ∧
          ∀ entry ∈ m.unknown, entry.Skippable limits) := by
  refine ⟨(Message.chunks m).flatten, encode_eq m, ?_⟩
  rw [result_decode_chunks_iff, claimedLength_eq]
  refine and_congr_right fun _ => ?_
  refine ⟨fun hu => ?_, fun hx => ?_⟩
  · refine ⟨fun entry hentry => (hu entry hentry).1, fun entry hentry => ?_⟩
    exact ((hwf entry hentry).skippable_iff limits).2 (hu entry hentry).2
  · obtain ⟨hforeign, hskip⟩ := hx
    intro entry hentry
    refine ⟨hforeign entry hentry, ?_⟩
    exact ((hwf entry hentry).skippable_iff limits).1 (hskip entry hentry)

/-- A failure with a group inside a group reads back where two groups may be
open, and does not where one may. -/
theorem decode_encode_nestedGroup :
    let m : CopyReply :=
      { outcome := .error "e"
        unknown := [⟨⟨3, .startGroup⟩, [0x1B, 0x08, 0x01, 0x23, 0x24, 0x1C]⟩] }
    (∀ entry ∈ m.unknown, entry.WellFormed) ∧
    (∃ bs, Message.encode m = .ok bs ∧
      (Message.decode { maxGroupDepth := 2 } bs : Report CopyReply).result = .ok m) ∧
    ∃ bs, Message.encode m = .ok bs ∧
      (Message.decode { maxGroupDepth := 1 } bs : Report CopyReply).result ≠ .ok m := by
  intro m
  have hwf : ∀ entry ∈ m.unknown, entry.WellFormed := by
    intro entry hmem
    rw [List.mem_singleton.1 hmem]
    exact ⟨{}, by decide +kernel⟩
  refine ⟨hwf, ?_, ?_⟩
  · obtain ⟨bs, hbs, hiff⟩ := decode_encode_eq_ok_iff hwf { maxGroupDepth := 2 }
    refine ⟨bs, hbs, hiff.2 ⟨by decide +kernel, by decide, fun entry hmem => ?_⟩⟩
    rw [List.mem_singleton.1 hmem]
    exact ⟨⟨3, .startGroup⟩, [], by decide +kernel⟩
  · obtain ⟨bs, hbs, hiff⟩ := decode_encode_eq_ok_iff hwf { maxGroupDepth := 1 }
    refine ⟨bs, hbs, fun h => ?_⟩
    obtain ⟨key, rest, hr⟩ := (hiff.1 h).2.2 _ (List.mem_singleton.2 rfl)
    have hdeep : ((Entry.readKey { maxGroupDepth := 1 }).run
        [0x1B, 0x08, 0x01, 0x23, 0x24, 0x1C]).1 = .error (.malformed (.groupsTooDeep 1)) := by
      decide +kernel
    rw [hr] at hdeep
    cases hdeep

end CopyReply
end WireFormat
