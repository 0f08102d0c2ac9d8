/-
# What a reply is read as

A reply is read clause by clause. A clause is what one entry says: an index, the
description of a failure, or an entry that a reply does not know. Which clause an
entry is does not depend on the reply it is merged into, so decoding reads the
clauses first and then applies them in order.

The grammar of clauses is said without a reader: field 1 is a varint, field 2 is
text after its length, and any other field is an entry of the grammar of entries.
A reader of clauses accepts exactly these byte strings, so a byte string decodes
exactly if it is a concatenation of clauses.

Key definitions: `CopyReply.Clause`, `CopyReply.Clause.apply`,
`CopyReply.Clause.read`, `CopyReply.IsClause`, `CopyReply.ofClauses`.
Key theorems: `CopyReply.mergeEntry_eq`, `CopyReply.accepts_read`,
`CopyReply.ofClauses_append`, `CopyReply.result_decode_of_le`,
`CopyReply.result_mergeBytes_eq`.
-/
import WireFormat.CopyReply
import WireFormat.Entry.Grammar
import WireFormat.Proofs.Items

namespace WireFormat

theorem Key.expect_eq_ok_iff {key : Key} {type : WireType} :
    key.expect type = .ok () ↔ key.type = type := by
  unfold expect
  split <;> simp_all

theorem Text.decode_eq_ok_iff {bs : Bytes} {s : String} :
    decode bs = .ok s ↔ bs = encode s := by
  refine ⟨fun h => (encode_of_decode_eq_ok h).symm, fun h => ?_⟩
  rw [h, decode_encode]

namespace Grammar

/-! ### Readers and their grammars -/

theorem accepts_varint : Varint.read.Accepts IsVarint :=
  fun _ _ _ => run_varint_eq_ok_iff

theorem accepts_key : Key.read.Accepts IsKey :=
  fun _ _ _ => run_key_eq_ok_iff

theorem accepts_skip (limit : Nat) (key : Key) :
    (Skip.field limit key).Accepts fun used _ => IsPayload limit key used :=
  fun _ _ _ => run_skip_eq_ok_iff

theorem accepts_text : Payload.text.Accepts fun used s =>
    ∃ length v, used = length ++ Text.encode s ∧ IsVarint length v ∧
      (Text.encode s).length = v.toNat := by
  intro bs s rest
  rw [Payload.text, Reader.run_bind_eq_ok_iff]
  refine ⟨fun h => ?_, fun h => ?_⟩
  · obtain ⟨body, mid, hd, hs⟩ := h
    obtain ⟨length, v, rfl, hv, hl⟩ := run_delimited_eq_ok_iff.1 hd
    split at hs
    · next s' hdec =>
      cases hs
      obtain rfl := Text.decode_eq_ok_iff.1 hdec
      exact ⟨_, rfl, length, v, rfl, hv, hl⟩
    · cases hs
  · obtain ⟨_, rfl, length, v, rfl, hv, hl⟩ := h
    refine ⟨Text.encode s, rest, run_delimited_eq_ok_iff.2 ⟨length, v, rfl, hv, hl⟩, ?_⟩
    rw [Text.decode_encode]
    rfl

end Grammar

namespace CopyReply

open Grammar

/-- What one entry says to a reply. -/
inductive Clause where
  /-- The value is stored under an index. -/
  | index (v : Int32)
  /-- The copy failed. -/
  | error (description : String)
  /-- An entry that a reply does not know. -/
  | unknown (entry : Entry)

namespace Clause

/-- The outcome that a clause tells, if it tells one. -/
def outcome? : Clause → Option Outcome
  | index v => some (.index v)
  | error description => some (.error description)
  | unknown _ => none

/-- The entry that a clause is, if a reply does not know it. -/
def entry? : Clause → Option Entry
  | unknown entry => some entry
  | _ => none

/-- What a clause makes of a reply, and what happens on the way. -/
def apply (m : CopyReply) : Clause → CopyReply × List Event
  | index v => m.replace indexField (.index v)
  | error description => m.replace errorField (.error description)
  | unknown entry => (m.addUnknown entry, [.kept entry.key])

/-- The payload of a key of the index. -/
def readIndex (key : Key) : Reader Clause := do
  Reader.ofExcept (key.expect .varint)
  let v ← Payload.int32
  return index v

/-- The payload of a key of the description of a failure. -/
def readError (key : Key) : Reader Clause := do
  Reader.ofExcept (key.expect .lengthDelimited)
  let description ← Payload.text
  return error description

/-- The reader of the payload of a key that a reply knows. -/
def payload? (key : Key) : Option (Reader Clause) :=
  if key.field = indexField then some (readIndex key)
  else if key.field = errorField then some (readError key)
  else none

/-- What follows a key: a clause that a reply knows, or a payload passed over. -/
def afterKey (limits : Limits) (key : Key) : Reader (Clause ⊕ Key) :=
  match payload? key with
  | some payload => Sum.inl <$> payload
  | none => do
    Skip.field limits.maxGroupDepth.toNat key
    return .inr key

/-- A clause that a reply knows, or the key of an entry that was passed over. -/
def readOpen (limits : Limits) : Reader (Clause ⊕ Key) :=
  Key.read >>= afterKey limits

/-- The clause of a reading and of the bytes it took. -/
def close : (Clause ⊕ Key) × Bytes → Clause
  | (.inl clause, _) => clause
  | (.inr key, raw) => unknown ⟨key, raw⟩

/-- The next clause. -/
def read (limits : Limits) : Reader Clause :=
  close <$> (readOpen limits).captured

theorem consumes_read (limits : Limits) : (read limits).Consumes :=
  (Key.consumes_read.bind _).captured.bind _

end Clause

/-! ### Merging an entry is reading a clause and applying it -/

theorem known?_eq (m : CopyReply) (key : Key) :
    Message.known? m key = (Clause.payload? key).map fun payload => Clause.apply m <$> payload := by
  show (Outcome.reader? key).map (fun payload => m.replace key.field <$> payload) = _
  unfold Outcome.reader? Clause.payload?
  by_cases h1 : key.field = indexField
  · rw [if_pos h1, if_pos h1]
    simp [h1, Clause.readIndex, Clause.apply]
  · rw [if_neg h1, if_neg h1]
    by_cases h2 : key.field = errorField
    · rw [if_pos h2, if_pos h2]
      simp [h2, Clause.readError, Clause.apply]
    · rw [if_neg h2, if_neg h2]
      rfl

/-- The reading of an entry into `m`, from that of a clause. -/
def Clause.reading (m : CopyReply) : Clause ⊕ Key → Message.Reading CopyReply
  | .inl clause => .merged (clause.apply m).1 (clause.apply m).2
  | .inr key => .skipped key

theorem readEntry_eq (limits : Limits) (m : CopyReply) :
    Message.readEntry limits m = Clause.reading m <$> Clause.readOpen limits := by
  ext bs : 2
  rw [Message.readEntry, Clause.readOpen, map_bind, Reader.run_bind, Reader.run_bind]
  rcases Key.read.run bs with ⟨e | key, mid⟩
  · rfl
  · simp only [known?_eq, Clause.afterKey]
    rcases Clause.payload? key with _ | payload
    · simp only [Option.map_none, map_bind, map_pure]
      rfl
    · simp only [Option.map_some, Reader.run_bind, Reader.run_map]
      rcases payload.run mid with ⟨e | clause, rest⟩ <;> rfl

/-- An entry is read as a clause whatever it is merged into. -/
theorem mergeEntry_eq (limits : Limits) (m : CopyReply) :
    Message.mergeEntry limits m = Clause.apply m <$> Clause.read limits := by
  ext bs : 2
  rw [Message.mergeEntry, readEntry_eq, Clause.read, Reader.run_bind, Reader.run_map,
    Reader.run_map]
  simp only [Reader.captured, Reader.run_map]
  rcases (Clause.readOpen limits).run bs with ⟨e | clause | key, rest⟩ <;> rfl

/-! ### The grammar of clauses -/

/-- An entry of a field that a reply does not know. -/
def Foreign (entry : Entry) : Prop :=
  entry.key.field ≠ indexField ∧ entry.key.field ≠ errorField

/-- The clause that a byte string is, with at most `depth` groups open at once. -/
inductive IsClause (depth : Nat) : Bytes → Clause → Prop where
  /-- Field 1 is a varint, of which the lowest thirty-two bits count. -/
  | index {head payload : Bytes} {v : UInt64} :
      IsKey head ⟨indexField, .varint⟩ → IsVarint payload v →
      IsClause depth (head ++ payload) (.index v.toUInt32.toInt32)
  /-- Field 2 is text after its length. -/
  | error {head length : Bytes} {v : UInt64} {description : String} :
      IsKey head ⟨errorField, .lengthDelimited⟩ → IsVarint length v →
      (Text.encode description).length = v.toNat →
      IsClause depth (head ++ (length ++ Text.encode description)) (.error description)
  /-- Any other field is an entry. -/
  | unknown {entry : Entry} :
      Foreign entry → IsEntry depth entry → IsClause depth entry.raw (.unknown entry)

theorem accepts_readIndex (key : Key) : (Clause.readIndex key).Accepts fun used c =>
    key.type = .varint ∧ ∃ v, IsVarint used v ∧ c = .index v.toUInt32.toInt32 := by
  have h := (Reader.accepts_ofExcept (key.expect .varint)).bind fun _ =>
    (accepts_varint.map fun v => v.toUInt32.toInt32).map Clause.index
  refine h.congr fun used c => ?_
  refine ⟨fun hx => ?_, fun hx => ?_⟩
  · obtain ⟨_, _, tail, rfl, ⟨rfl, hk⟩, _, ⟨v, hv, rfl⟩, rfl⟩ := hx
    exact ⟨Key.expect_eq_ok_iff.1 hk, v, hv, rfl⟩
  · obtain ⟨hk, v, hv, rfl⟩ := hx
    exact ⟨(), [], used, rfl, ⟨rfl, Key.expect_eq_ok_iff.2 hk⟩, _, ⟨v, hv, rfl⟩, rfl⟩

theorem accepts_readError (key : Key) : (Clause.readError key).Accepts fun used c =>
    key.type = .lengthDelimited ∧ ∃ length v s, used = length ++ Text.encode s ∧
      IsVarint length v ∧ (Text.encode s).length = v.toNat ∧ c = .error s := by
  have h := (Reader.accepts_ofExcept (key.expect .lengthDelimited)).bind fun _ =>
    accepts_text.map Clause.error
  refine h.congr fun used c => ?_
  refine ⟨fun hx => ?_, fun hx => ?_⟩
  · obtain ⟨_, _, tail, rfl, ⟨rfl, hk⟩, s, ⟨length, v, rfl, hv, hl⟩, rfl⟩ := hx
    exact ⟨Key.expect_eq_ok_iff.1 hk, length, v, s, rfl, hv, hl, rfl⟩
  · obtain ⟨hk, length, v, s, rfl, hv, hl, rfl⟩ := hx
    exact ⟨(), [], _, rfl, ⟨rfl, Key.expect_eq_ok_iff.2 hk⟩, s, ⟨length, v, rfl, hv, hl⟩, rfl⟩

/-- What follows a key in a clause: the payload of a field that a reply knows,
or one that is passed over. -/
inductive IsOpen (depth : Nat) (key : Key) : Bytes → Clause ⊕ Key → Prop where
  | index {payload : Bytes} {v : UInt64} : key = ⟨indexField, .varint⟩ → IsVarint payload v →
      IsOpen depth key payload (.inl (.index v.toUInt32.toInt32))
  | error {length : Bytes} {v : UInt64} {s : String} : key = ⟨errorField, .lengthDelimited⟩ →
      IsVarint length v → (Text.encode s).length = v.toNat →
      IsOpen depth key (length ++ Text.encode s) (.inl (.error s))
  | skipped {payload : Bytes} : key.field ≠ indexField → key.field ≠ errorField →
      IsPayload depth key payload → IsOpen depth key payload (.inr key)

theorem accepts_afterKey (limits : Limits) (key : Key) :
    (Clause.afterKey limits key).Accepts (IsOpen limits.maxGroupDepth.toNat key) := by
  unfold Clause.afterKey Clause.payload?
  by_cases h1 : key.field = indexField
  · rw [if_pos h1]
    refine ((accepts_readIndex key).map Sum.inl).congr fun used x => ?_
    refine ⟨fun hx => ?_, fun hx => ?_⟩
    · obtain ⟨_, ⟨ht, v, hv, rfl⟩, rfl⟩ := hx
      exact .index (by rw [← h1, ← ht]) hv
    · cases hx with
      | index hk hv => exact ⟨_, ⟨by rw [hk], _, hv, rfl⟩, rfl⟩
      | error hk _ _ => rw [hk] at h1; cases h1
      | skipped hne _ _ => exact absurd h1 hne
  · rw [if_neg h1]
    by_cases h2 : key.field = errorField
    · rw [if_pos h2]
      refine ((accepts_readError key).map Sum.inl).congr fun used x => ?_
      refine ⟨fun hx => ?_, fun hx => ?_⟩
      · obtain ⟨_, ⟨ht, length, v, s, rfl, hv, hl, rfl⟩, rfl⟩ := hx
        exact .error (by rw [← h2, ← ht]) hv hl
      · cases hx with
        | index hk _ => rw [hk] at h1; exact absurd rfl h1
        | error hk hv hl => exact ⟨_, ⟨by rw [hk], _, _, _, rfl, hv, hl, rfl⟩, rfl⟩
        | skipped _ hne _ => exact absurd h2 hne
    · rw [if_neg h2]
      have hskip := accepts_skip limits.maxGroupDepth.toNat key
      refine (hskip.bind fun _ => Reader.accepts_pure (Sum.inr key)).congr fun used x => ?_
      refine ⟨fun hx => ?_, fun hx => ?_⟩
      · obtain ⟨_, payload, _, rfl, hp, rfl, rfl⟩ := hx
        rw [List.append_nil]
        exact .skipped h1 h2 hp
      · cases hx with
        | index hk _ => rw [hk] at h1; exact absurd rfl h1
        | error hk _ _ => rw [hk] at h2; exact absurd rfl h2
        | skipped _ _ hp => exact ⟨(), used, [], (List.append_nil _).symm, hp, rfl, rfl⟩

/-- A reader of clauses accepts exactly the grammar of clauses. -/
theorem accepts_read (limits : Limits) :
    (Clause.read limits).Accepts (IsClause limits.maxGroupDepth.toNat) := by
  have hopen := accepts_key.bind (accepts_afterKey limits)
  refine (hopen.captured.map Clause.close).congr fun used c => ?_
  refine ⟨fun hx => ?_, fun hc => ?_⟩
  · obtain ⟨⟨x, _⟩, ⟨⟨key, head, tail, rfl, hk, hx⟩, rfl⟩, rfl⟩ := hx
    cases hx with
    | index hkey hv => exact .index (hkey ▸ hk) hv
    | error hkey hv hl => exact .error (hkey ▸ hk) hv hl
    | skipped h1 h2 hp =>
      have he : IsEntry limits.maxGroupDepth.toNat ⟨key, head ++ tail⟩ := ⟨head, tail, rfl, hk, hp⟩
      exact @IsClause.unknown _ ⟨key, head ++ tail⟩ ⟨h1, h2⟩ he
  · cases hc with
    | @index head payload v hk hv =>
      have hx : IsOpen limits.maxGroupDepth.toNat _ payload _ := .index rfl hv
      exact ⟨(_, head ++ payload), ⟨⟨_, head, payload, rfl, hk, hx⟩, rfl⟩, rfl⟩
    | @error head length v s hk hv hl =>
      have hx : IsOpen limits.maxGroupDepth.toNat _ (length ++ Text.encode s) _ := .error rfl hv hl
      exact ⟨(_, head ++ (length ++ Text.encode s)), ⟨⟨_, head, _, rfl, hk, hx⟩, rfl⟩, rfl⟩
    | @unknown entry hf he =>
      obtain ⟨head, payload, hraw, hk, hp⟩ := he
      exact ⟨(.inr entry.key, entry.raw),
        ⟨⟨_, head, payload, hraw, hk, .skipped hf.1 hf.2 hp⟩, rfl⟩, rfl⟩

/-! ### Replies under merging -/

theorem merge_assoc (a b c : CopyReply) : (a.merge b).merge c = a.merge (b.merge c) := by
  unfold merge
  by_cases hb : b.outcome = .unset
  · by_cases hc : c.outcome = .unset <;> simp [hb, hc]
  · by_cases hc : c.outcome = .unset <;> simp [hb, hc]

@[simp] theorem merge_empty (m : CopyReply) : m.merge {} = m := by
  simp [merge]

@[simp] theorem empty_merge (m : CopyReply) : merge {} m = m := by
  obtain ⟨outcome, unknown⟩ := m
  by_cases h : outcome = .unset <;> simp [merge, h]

/-! ### The meaning of clauses -/

/-- The reply that clauses tell: the last outcome among them stands, and the
entries that a reply does not know are kept in order. -/
def ofClauses (clauses : List Clause) : CopyReply where
  outcome := (clauses.filterMap Clause.outcome?).getLast?.getD .unset
  unknown := clauses.filterMap Clause.entry?

theorem fst_apply (m : CopyReply) (clause : Clause) :
    (clause.apply m).1 = m.merge (ofClauses [clause]) := by
  cases clause <;> simp [Clause.apply, replace, addUnknown, merge, ofClauses, Clause.outcome?,
    Clause.entry?]

theorem outcome?_ne_unset {clause : Clause} {o : Outcome} (h : clause.outcome? = some o) :
    o ≠ .unset := by
  cases clause <;> cases h <;> simp

/-- The reply of two lists of clauses is the merge of their replies. -/
theorem ofClauses_append (xs ys : List Clause) :
    ofClauses (xs ++ ys) = (ofClauses xs).merge (ofClauses ys) := by
  have hset : ∀ o, (ys.filterMap Clause.outcome?).getLast? = some o → o ≠ .unset := by
    intro o ho
    obtain ⟨clause, -, hc⟩ := List.mem_filterMap.1 (List.mem_of_getLast? ho)
    exact outcome?_ne_unset hc
  have hlast : ∀ x y : Option Outcome, (∀ o, x = some o → o ≠ .unset) →
      (x.or y).getD .unset = if x.getD .unset = .unset then y.getD .unset else x.getD .unset := by
    intro x y hx
    cases x with
    | none => simp
    | some o => simp [hx o rfl]
  simp only [ofClauses, merge, List.filterMap_append, List.getLast?_append, CopyReply.mk.injEq,
    and_true]
  exact hlast _ _ hset

/-- Clauses applied one by one merge what they tell together. -/
theorem foldl_apply (m : CopyReply) (clauses : List Clause) :
    clauses.foldl (fun m clause => (clause.apply m).1) m = m.merge (ofClauses clauses) := by
  induction clauses generalizing m with
  | nil => exact (merge_empty m).symm
  | cons clause clauses ih =>
    have hcons : ofClauses (clause :: clauses) = (ofClauses [clause]).merge (ofClauses clauses) :=
      ofClauses_append [clause] clauses
    rw [List.foldl_cons, ih, fst_apply, merge_assoc, hcons]

/-! ### Decoding -/

/-- The clauses of a byte string. -/
def clauses (limits : Limits) (bs : Bytes) : Reader.Items Clause :=
  (Clause.read limits).items (Clause.consumes_read limits) bs

theorem result_clauses_eq_ok_iff {limits : Limits} {bs : Bytes} {cs : List Clause} :
    (clauses limits bs).result = .ok cs ↔
      ∃ pieces : List Bytes, pieces.flatten = bs ∧
        List.Forall₂ (IsClause limits.maxGroupDepth.toNat) pieces cs := by
  rw [Reader.Items.result_eq_ok_iff]
  exact Reader.items_eq_complete_iff (accepts_read limits)

/-- The entries that clauses keep are entries of the grammar, of fields that a
reply does not know. -/
theorem mem_unknown_of_clauses {limits : Limits} {bs : Bytes} {cs : List Clause}
    (h : (clauses limits bs).result = .ok cs) {entry : Entry}
    (hmem : entry ∈ (ofClauses cs).unknown) :
    Foreign entry ∧ IsEntry limits.maxGroupDepth.toNat entry := by
  obtain ⟨pieces, -, hp⟩ := result_clauses_eq_ok_iff.1 h
  obtain ⟨clause, hc, hentry⟩ := List.mem_filterMap.1 hmem
  have hclause : clause = .unknown entry := by
    cases clause <;> cases hentry
    rfl
  obtain ⟨piece, -, hpiece⟩ := Reader.exists_piece_of_mem hp hc
  rw [hclause] at hpiece
  cases hpiece with
  | unknown hf he => exact ⟨hf, he⟩

theorem result_mergeEntries (limits : Limits) (m : CopyReply) (bs : Bytes) :
    (Message.mergeEntries limits m bs).result =
      (clauses limits bs).result.map fun cs => m.merge (ofClauses cs) := by
  rw [Message.mergeEntries_eq_of_items (Clause.consumes_read limits) (mergeEntry_eq limits) m bs]
  simp only [Message.fst_mergeItems, foldl_apply]
  rfl

/-- Within the length limit, decoding is reading the clauses and taking their meaning. -/
theorem result_decode_of_le {limits : Limits} {bs : Bytes}
    (h : bs.length ≤ limits.maxMessageLength.toNat) :
    (Message.decode limits bs : Report CopyReply).result =
      (clauses limits bs).result.map ofClauses := by
  have hempty : (Message.empty : CopyReply) = {} := rfl
  rw [Message.decode, Message.result_mergeBytes_of_le h, result_mergeEntries, hempty]
  simp only [empty_merge]

/-- Decoding on top of `m` is decoding, then merging into `m`. -/
theorem result_mergeBytes_eq (limits : Limits) (m : CopyReply) (bs : Bytes) :
    (Message.mergeBytes limits m bs).result =
      (Message.decode limits bs : Report CopyReply).result.map m.merge := by
  rcases Nat.lt_or_ge limits.maxMessageLength.toNat bs.length with hlt | hle
  · rw [Message.decode, Message.result_mergeBytes_of_lt hlt, Message.result_mergeBytes_of_lt hlt]
    rfl
  · rw [Message.result_mergeBytes_of_le hle, result_mergeEntries, result_decode_of_le hle]
    rcases (clauses limits bs).result with e | cs <;> rfl

theorem result_decode_eq_ok_iff_clauses {limits : Limits} {bs : Bytes} {m : CopyReply} :
    (Message.decode limits bs : Report CopyReply).result = .ok m ↔
      bs.length ≤ limits.maxMessageLength.toNat ∧
        ∃ cs, (clauses limits bs).result = .ok cs ∧ m = ofClauses cs := by
  have hempty : (Message.empty : CopyReply) = {} := rfl
  rw [Message.result_decode_eq_ok_iff_items (Clause.consumes_read limits) (mergeEntry_eq limits)]
  simp only [foldl_apply, hempty, empty_merge]
  rfl

theorem mem_unknown_of_decode {limits : Limits} {bs : Bytes} {m : CopyReply}
    (h : (Message.decode limits bs : Report CopyReply).result = .ok m) {entry : Entry}
    (hmem : entry ∈ m.unknown) : Foreign entry ∧ IsEntry limits.maxGroupDepth.toNat entry := by
  obtain ⟨-, cs, hcs, rfl⟩ := result_decode_eq_ok_iff_clauses.1 h
  exact mem_unknown_of_clauses hcs hmem

/-- **Decoding accepts exactly the grammar and computes its meaning.** A byte
string decodes exactly if it is within the length limit and a concatenation of
clauses; what it decodes to is the reply that these clauses tell. -/
theorem decode_result_eq_ok_iff (limits : Limits) (bs : Bytes) :
    ((∃ m, (Message.decode limits bs : Report CopyReply).result = .ok m) ↔
      bs.length ≤ limits.maxMessageLength.toNat ∧
        ∃ (pieces : List Bytes) (cs : List Clause), pieces.flatten = bs ∧
          List.Forall₂ (IsClause limits.maxGroupDepth.toNat) pieces cs) ∧
    ∀ m, (Message.decode limits bs : Report CopyReply).result = .ok m ↔
      bs.length ≤ limits.maxMessageLength.toNat ∧
        ∃ (pieces : List Bytes) (cs : List Clause), pieces.flatten = bs ∧
          List.Forall₂ (IsClause limits.maxGroupDepth.toNat) pieces cs ∧ m = ofClauses cs := by
  have hmeaning : ∀ m, (Message.decode limits bs : Report CopyReply).result = .ok m ↔
      bs.length ≤ limits.maxMessageLength.toNat ∧
        ∃ (pieces : List Bytes) (cs : List Clause), pieces.flatten = bs ∧
          List.Forall₂ (IsClause limits.maxGroupDepth.toNat) pieces cs ∧ m = ofClauses cs := by
    intro m
    rw [result_decode_eq_ok_iff_clauses]
    simp only [result_clauses_eq_ok_iff]
    refine and_congr_right fun _ => ?_
    refine ⟨fun hx => ?_, fun hx => ?_⟩
    · obtain ⟨cs, ⟨pieces, hflat, hp⟩, hm⟩ := hx
      exact ⟨pieces, cs, hflat, hp, hm⟩
    · obtain ⟨pieces, cs, hflat, hp, hm⟩ := hx
      exact ⟨cs, ⟨pieces, hflat, hp⟩, hm⟩
  refine ⟨?_, hmeaning⟩
  simp only [hmeaning]
  refine ⟨fun hx => ?_, fun hx => ?_⟩
  · obtain ⟨m, hle, pieces, cs, hflat, hp, -⟩ := hx
    exact ⟨hle, pieces, cs, hflat, hp⟩
  · obtain ⟨hle, pieces, cs, hflat, hp⟩ := hx
    exact ⟨ofClauses cs, hle, pieces, cs, hflat, hp, rfl⟩

end CopyReply
end WireFormat
