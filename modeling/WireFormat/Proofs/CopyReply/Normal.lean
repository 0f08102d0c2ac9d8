/-
# The normal form of a reply

A reply that was decoded and is encoded again is in normal form: its outcome first,
in the shortest way to write it, then the entries it does not know, as they stood
and in order. Outcomes that were replaced are gone, and so is the padding of the
last one. What is in normal form decodes to the reply it came from, so it stays as
it is when it is brought into normal form once more.

The normal form is not longer than what was decoded, with one exception. An index
is held in thirty-two bits and written in sixty-four: a negative one takes ten bytes
for its number, and may have been read from five. The account is kept clause by
clause: an entry that is kept takes the bytes it had, an outcome at most five bytes
more than it had, and the outcome of a reply is that of one of its clauses.

Key definitions: `CopyReply.Outcome.bytes`, `CopyReply.Outcome.slack`.
Key theorems: `Payload.length_ofInt32_le`, `CopyReply.length_bytes_le`,
`CopyReply.length_add_totalLength_le`, `CopyReply.length_chunks_ofClauses_le`,
`CopyReply.result_decode_chunks_of_decode`.
-/
import WireFormat.Proofs.CopyReply.Relayed
import WireFormat.Proofs.Varint

namespace WireFormat

/-! ### Numbers read and written -/

namespace Payload

open Grammar

theorem toInt32_lt_zero_iff (v : UInt64) :
    v.toUInt32.toInt32 < 0 ↔ 2147483648 ≤ v.toNat % 4294967296 := by
  rw [Int32.lt_iff_toInt_lt]
  show (v.toBitVec.setWidth 32).toInt < 0 ↔ _
  rw [BitVec.toInt_neg_iff, BitVec.toNat_setWidth]
  show 4294967296 ≤ 2 * (v.toNat % 4294967296) ↔ _
  omega

theorem toNat_ofInt32 {v : Int32} (h : ¬ v < 0) : (ofInt32 v).toNat = v.toBitVec.toNat := by
  have hsign : ¬ v.toBitVec.toInt < 0 := fun hneg => h (Int32.lt_iff_toInt_lt.2 hneg)
  rw [BitVec.toInt_neg_iff] at hsign
  have hmsb : v.toBitVec.msb = false := by
    rw [BitVec.msb_eq_false_iff_two_mul_lt]
    omega
  show (v.toBitVec.signExtend 64).toNat = _
  rw [BitVec.toNat_signExtend, hmsb, if_neg Bool.false_ne_true, Nat.add_zero, BitVec.toNat_setWidth]
  exact Nat.mod_eq_of_lt (by omega)

/-- An index is written in as many bytes as it was read from, or fewer. If it is
negative it may be written in five more. -/
theorem length_ofInt32_le {bs : Bytes} {v : UInt64} (h : IsVarint bs v) :
    Varint.length (ofInt32 v.toUInt32.toInt32) ≤
      bs.length + if v.toUInt32.toInt32 < 0 then 5 else 0 := by
  by_cases hneg : v.toUInt32.toInt32 < 0
  · have hupper := (toInt32_lt_zero_iff v).1 hneg
    have hpow := h.toNat_lt_pow
    have hmax : Varint.length (ofInt32 v.toUInt32.toInt32) ≤ 10 := Varint.length_le_maxLength _
    -- four bytes hold twenty-eight bits, and the upper one of thirty-two is set
    have hfive : 5 ≤ bs.length := by
      by_contra hfew
      have hle : Nat.pow 128 bs.length ≤ 128 ^ 4 := Nat.pow_le_pow_right (by decide) (by omega)
      omega
    rw [if_pos hneg]
    omega
  · have hbits : (ofInt32 v.toUInt32.toInt32).toNat ≤ v.toNat := by
      rw [toNat_ofInt32 hneg]
      exact Nat.mod_le _ _
    rw [if_neg hneg]
    exact h.length_le hbits

end Payload

namespace CopyReply

open Grammar

/-! ### What clauses take and what is written for them -/

namespace Outcome

/-- The bytes of the entry that an outcome is written as, if it is set. -/
def bytes (o : Outcome) : Bytes := ((o.item?.map Item.chunks).getD []).flatten

/-- How many bytes more may be written for an outcome than it was read from. -/
def slack : Outcome → Nat
  | index v => if v < 0 then 5 else 0
  | _ => 0

theorem slack_le (o : Outcome) : o.slack ≤ 5 := by
  unfold slack
  split
  · split <;> omega
  · omega

theorem slack_eq_zero {o : Outcome} (h : ∀ v, o = .index v → ¬ v < 0) : o.slack = 0 := by
  unfold slack
  split
  · next v => rw [if_neg (h v rfl)]
  · rfl

end Outcome

theorem flatten_chunks (m : CopyReply) :
    (Message.chunks m).flatten = m.outcome.bytes ++ (m.unknown.map Entry.raw).flatten :=
  List.flatten_append

theorem Outcome.length_bytes (o : Outcome) :
    o.bytes.length = (o.item?.map Item.length).getD 0 := by
  unfold Outcome.bytes
  cases o.item? with
  | none => rfl
  | some item => exact item.length_chunks

theorem length_bytes_le {depth : Nat} {piece : Bytes} {clause : Clause} {o : Outcome}
    (hp : IsClause depth piece clause) (ho : clause.outcome? = some o) :
    o.bytes.length ≤ piece.length + o.slack := by
  cases hp with
  | @index head payload v hk hv =>
    cases ho
    have hhead := hk.length_le
    have hpayload := Payload.length_ofInt32_le hv
    rw [Outcome.length_bytes, List.length_append]
    simp only [Outcome.item?, Option.map_some, Option.getD_some, Item.length, Outcome.slack]
    omega
  | @error head length v description hk hv hl =>
    cases ho
    have hhead := hk.length_le
    have hlength : Varint.length (UInt64.ofNat description.utf8ByteSize) ≤ length.length := by
      rw [← Item.length_encode_text, hl, UInt64.ofNat_toNat]
      exact hv.length_le (Nat.le_refl _)
    rw [Outcome.length_bytes, List.length_append, List.length_append, Item.length_encode_text]
    simp only [Outcome.item?, Option.map_some, Option.getD_some, Item.length,
      Item.delimitedLength, Outcome.slack]
    omega
  | unknown _ _ => cases ho

/-- The entries that clauses keep take no more bytes than the clauses, and with any
outcome among these no more than its slack besides. -/
theorem length_add_totalLength_le {depth : Nat} {pieces : List Bytes} {cs : List Clause}
    (hp : List.Forall₂ (IsClause depth) pieces cs) :
    Entry.totalLength (cs.filterMap Clause.entry?) ≤ pieces.flatten.length ∧
      ∀ o ∈ cs.filterMap Clause.outcome?,
        o.bytes.length + Entry.totalLength (cs.filterMap Clause.entry?) ≤
          pieces.flatten.length + o.slack := by
  induction hp with
  | nil => simp [Entry.totalLength]
  | @cons piece clause pieces cs hpc _ ih =>
    obtain ⟨hkept, houtcome⟩ := ih
    rw [List.flatten_cons, List.length_append]
    cases clause with
    | unknown entry =>
      cases hpc
      simp only [List.filterMap_cons, Clause.entry?, Clause.outcome?, Entry.totalLength]
      refine ⟨by omega, fun o ho => ?_⟩
      have := houtcome o ho
      omega
    | index v | error description =>
      have hpiece := length_bytes_le hpc rfl
      simp only [List.filterMap_cons, Clause.entry?, Clause.outcome?, List.forall_mem_cons]
      refine ⟨by omega, by omega, fun o ho => ?_⟩
      have := houtcome o ho
      omega

/-- The reply that clauses tell is written in as many bytes as they have, with the
slack of its outcome. -/
theorem length_chunks_ofClauses_le {depth : Nat} {pieces : List Bytes} {cs : List Clause}
    (hp : List.Forall₂ (IsClause depth) pieces cs) :
    (Message.chunks (ofClauses cs)).flatten.length ≤
      pieces.flatten.length + (ofClauses cs).outcome.slack := by
  obtain ⟨hkept, houtcome⟩ := length_add_totalLength_le hp
  rw [flatten_chunks, List.length_append, ← Entry.totalLength_eq]
  cases hlast : (cs.filterMap Clause.outcome?).getLast? with
  | none =>
    have hunset : (ofClauses cs).outcome = .unset := by rw [ofClauses, hlast]; rfl
    rw [hunset]
    calc Outcome.unset.bytes.length + Entry.totalLength (ofClauses cs).unknown
        = Entry.totalLength (ofClauses cs).unknown := Nat.zero_add _
      _ ≤ pieces.flatten.length := hkept
  | some o =>
    have hset : (ofClauses cs).outcome = o := by rw [ofClauses, hlast]; rfl
    rw [hset]
    exact houtcome o (List.mem_of_getLast? hlast)

/-! ### Encoding what was decoded -/

/-- What was decoded decodes again from what it is written as, wherever as many
groups may be open and messages may be as long. -/
theorem result_decode_chunks_of_decode {limits limits' : Limits} {bs : Bytes} {m : CopyReply}
    (hm : (Message.decode limits bs : Report CopyReply).result = .ok m)
    (hdepth : limits'.maxGroupDepth = limits.maxGroupDepth) :
    (Message.decode limits' (Message.chunks m).flatten : Report CopyReply).result = .ok m ↔
      (Message.chunks m).flatten.length ≤ limits'.maxMessageLength.toNat := by
  rw [result_decode_chunks_iff, hdepth, and_iff_left_iff_imp]
  exact fun _ _ => mem_unknown_of_decode hm

/-- **Encoding what was decoded brings it into normal form.** The outcome comes first
and then the entries that a reply does not know, as they stood, in at most five bytes
more than were decoded; the normal form decodes to the same reply. -/
theorem encode_decoded_normal_form {limits : Limits} {bs : Bytes} {m : CopyReply}
    (hm : (Message.decode limits bs : Report CopyReply).result = .ok m) :
    ∃ e, Message.encode m = .ok e ∧
      (∃ relay : Relay, (Message.decode limits bs : Report Relay).result = .ok relay ∧
        (relay.entries.map Entry.raw).flatten = bs ∧
        e = m.outcome.bytes ++ ((relay.entries.filter Foreign).map Entry.raw).flatten) ∧
      e.length ≤ bs.length + 5 ∧
      ((∀ v, m.outcome = .index v → ¬ v < 0) → e.length ≤ bs.length) ∧
      (∀ limits' : Limits, limits'.maxGroupDepth = limits.maxGroupDepth →
        (e.length ≤ limits'.maxMessageLength.toNat →
          (Message.decode limits' e : Report CopyReply).result = .ok m) ∧
        ∀ m', (Message.decode limits' e : Report CopyReply).result = .ok m' →
          Message.encode m' = .ok e) ∧
      ((∃ m', (Message.decode limits e : Report CopyReply).result = .ok m') ↔
        e.length ≤ limits.maxMessageLength.toNat) := by
  obtain ⟨-, cs, hcs, hmeaning⟩ := result_decode_eq_ok_iff_clauses.1 hm
  obtain ⟨pieces, hflat, hp⟩ := result_clauses_eq_ok_iff.1 hcs
  obtain ⟨relay, hrelay, -⟩ := result_decode_eq_ok_iff_relay.1 hm
  obtain ⟨-, entries, htiles, -, rfl⟩ := Relay.result_decode_eq_ok_iff.1 hrelay
  have hunknown : m.unknown = entries.filter Foreign := by
    rw [(eq_ofEntries_of_decode hm hrelay).1]
    rfl
  have hlength := length_chunks_ofClauses_le hp
  rw [hflat, ← hmeaning] at hlength
  have hagain : ∀ limits' : Limits, limits'.maxGroupDepth = limits.maxGroupDepth →
      ((Message.decode limits' (Message.chunks m).flatten : Report CopyReply).result = .ok m ↔
        (Message.chunks m).flatten.length ≤ limits'.maxMessageLength.toNat) :=
    fun _ hdepth => result_decode_chunks_of_decode hm hdepth
  refine ⟨_, encode_eq m, ⟨_, hrelay, htiles, by rw [flatten_chunks, hunknown]⟩, ?_,
    fun hpos => ?_, fun limits' hdepth => ⟨(hagain limits' hdepth).2, fun m' hm' => ?_⟩,
    fun hx => ?_, fun hle => ?_⟩
  · calc (Message.chunks m).flatten.length
        ≤ bs.length + m.outcome.slack := hlength
      _ ≤ bs.length + 5 := Nat.add_le_add_left m.outcome.slack_le _
  · rwa [Outcome.slack_eq_zero hpos] at hlength
  · -- what decodes at all is within the length limit, and so decodes to the reply
    have hle := Message.length_le_of_result_mergeBytes hm'
    rw [(hagain limits' hdepth).2 hle] at hm'
    cases hm'
    exact encode_eq m
  · obtain ⟨m', hm'⟩ := hx
    exact Message.length_le_of_result_mergeBytes hm'
  · exact ⟨m, (hagain limits rfl).2 hle⟩

/-- The index -1 in five bytes, with an entry before it, is written in ten bytes and
before the entry. -/
theorem encode_decoded_normal_form_negative :
    let bs : Bytes := [0x18, 0x07, 0x08, 0xFF, 0xFF, 0xFF, 0xFF, 0x0F]
    let e : Bytes :=
      [0x08, 0xFF, 0xFF, 0xFF, 0xFF, 0xFF, 0xFF, 0xFF, 0xFF, 0xFF, 0x01, 0x18, 0x07]
    let m : CopyReply := { outcome := .index (-1), unknown := [⟨⟨3, .varint⟩, [0x18, 0x07]⟩] }
    (Message.decode {} bs : Report CopyReply).result = .ok m ∧
      Message.encode m = .ok e ∧ e.length = bs.length + 5 ∧
      (Message.decode {} e : Report CopyReply).result = .ok m := by
  intro bs e m
  have hm : (Message.decode {} bs : Report CopyReply).result = .ok m := by decide +kernel
  have he : Message.encode m = .ok e := by decide +kernel
  obtain ⟨e', he', -, -, -, hagain, -⟩ := encode_decoded_normal_form hm
  obtain rfl : e = e' := Except.ok.inj (he.symm.trans he')
  exact ⟨hm, he, rfl, (hagain {} rfl).1 (by decide)⟩

end CopyReply
end WireFormat
