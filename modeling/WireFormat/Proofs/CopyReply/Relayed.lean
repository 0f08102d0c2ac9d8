/-
# Replies and relays read alike

A reply and a relay cut a byte string at the same places, though a reply reads
the entries it knows and a relay passes over them. So a reply can be had from
what a relay decodes: the byte string decodes as a reply exactly if it decodes as
a relay and each entry under a field that a reply knows is one that it can take.
The entries of other fields are then kept as they stand, and the last of the
known ones alone says what the outcome is.

An entry is a clause by itself: `Clause.ofEntry` gives it from the bytes of the
entry, and the grammar of clauses is that of the entries a reply can take.

Key definitions: `Entry.payload`, `Entry.number?`, `Entry.body?`,
`CopyReply.Admits`, `CopyReply.Outcome.ofEntry?`, `CopyReply.Clause.ofEntry`,
`CopyReply.ofEntries`.
Key theorems: `CopyReply.exists_entry_of_isClause`, `CopyReply.isClause_ofEntry`,
`CopyReply.result_decode_eq_ok_iff_relay`, `CopyReply.ofClauses_map_ofEntry`,
`CopyReply.eq_ofEntries_of_decode`.
-/
import Mathlib.Data.List.Induction
import WireFormat.Proofs.CopyReply.RoundTrip
import WireFormat.Proofs.Message.PassThrough

namespace WireFormat
namespace Entry

open Grammar

/-! ### What stands after the key of an entry -/

/-- The bytes after the key. -/
def payload (entry : Entry) : Bytes := (Key.read.run entry.raw).2

/-- The number that the payload starts with, if it starts with a varint. -/
def number? (entry : Entry) : Option UInt64 := (Varint.read.run entry.payload).1.toOption

/-- The bytes that the payload starts with after their length, if it does. -/
def body? (entry : Entry) : Option Bytes := (Payload.delimited.run entry.payload).1.toOption

variable {entry : Entry} {key : Key} {depth : Nat}

theorem payload_eq {head tail : Bytes} (hraw : entry.raw = head ++ tail) (hk : IsKey head key) :
    entry.payload = tail := by
  have hr : Key.read.run (head ++ tail) = (.ok key, tail) := run_key_eq_ok_iff.2 ⟨head, rfl, hk⟩
  rw [payload, hraw, hr]

theorem number?_eq {head tail : Bytes} {v : UInt64} (hraw : entry.raw = head ++ tail)
    (hk : IsKey head key) (hv : IsVarint tail v) : entry.number? = some v := by
  have hr : Varint.read.run tail = (.ok v, []) :=
    run_varint_eq_ok_iff.2 ⟨tail, (List.append_nil _).symm, hv⟩
  rw [number?, payload_eq hraw hk, hr]
  rfl

theorem body?_eq {head length body : Bytes} {v : UInt64}
    (hraw : entry.raw = head ++ (length ++ body)) (hk : IsKey head key) (hv : IsVarint length v)
    (hl : body.length = v.toNat) : entry.body? = some body := by
  have hr : Payload.delimited.run (length ++ body) = (.ok body, []) :=
    run_delimited_eq_ok_iff.2 ⟨length, v, (List.append_nil _).symm, hv, hl⟩
  rw [body?, payload_eq hraw hk, hr]
  rfl

theorem exists_number (he : IsEntry depth entry) (ht : entry.key.type = .varint) :
    ∃ head tail v, entry.raw = head ++ tail ∧ IsKey head entry.key ∧ IsVarint tail v ∧
      entry.number? = some v := by
  obtain ⟨head, tail, hraw, hk, hp⟩ := he
  cases hp with
  | @varint _ _ _ v _ hv => exact ⟨head, tail, v, hraw, hk, hv, number?_eq hraw hk hv⟩
  | fixed64 h _ | delimited h _ _ | fixed32 h _ | group h _ => rw [ht] at h; cases h

theorem exists_body (he : IsEntry depth entry) (ht : entry.key.type = .lengthDelimited) :
    ∃ head length body v, entry.raw = head ++ (length ++ body) ∧ IsKey head entry.key ∧
      IsVarint length v ∧ body.length = v.toNat ∧ entry.body? = some body := by
  obtain ⟨head, tail, hraw, hk, hp⟩ := he
  cases hp with
  | @delimited _ _ length body v _ hv hl =>
    exact ⟨head, length, body, v, hraw, hk, hv, hl, body?_eq hraw hk hv hl⟩
  | varint h _ | fixed64 h _ | fixed32 h _ | group h _ => rw [ht] at h; cases h

end Entry

namespace CopyReply

open Grammar

/-! ### Entries as clauses -/

/-- A reply can take an entry: the index is a number and the description of a
failure is text. Entries of other fields are always taken. -/
def Admits (entry : Entry) : Prop :=
  (entry.key.field = indexField → entry.key.type = .varint) ∧
    (entry.key.field = errorField →
      entry.key.type = .lengthDelimited ∧ ∃ s : String, entry.body? = some (Text.encode s))

/-- The outcome that an entry tells by itself, if it is of a field that a reply
knows: the lowest thirty-two bits of its number, or its text. -/
def Outcome.ofEntry? (entry : Entry) : Option Outcome :=
  if entry.key.field = indexField then
    entry.number?.map fun v => .index v.toUInt32.toInt32
  else if entry.key.field = errorField then
    entry.body?.bind fun body => (Text.decode body).toOption.map .error
  else none

/-- The clause that an entry is by itself. -/
def Clause.ofEntry (entry : Entry) : Clause :=
  ((Outcome.ofEntry? entry).bind Outcome.clause?).getD (.unknown entry)

theorem indexField_ne_errorField : indexField ≠ errorField := by decide

variable {entry : Entry} {depth : Nat}

theorem ofEntry?_index (hf : entry.key.field = indexField) {v : UInt64}
    (hv : entry.number? = some v) :
    Outcome.ofEntry? entry = some (.index v.toUInt32.toInt32) := by
  rw [Outcome.ofEntry?, if_pos hf, hv]
  rfl

theorem ofEntry?_error (hf : entry.key.field = errorField) {s : String}
    (hs : entry.body? = some (Text.encode s)) :
    Outcome.ofEntry? entry = some (.error s) := by
  have hne : entry.key.field ≠ indexField := hf ▸ indexField_ne_errorField.symm
  rw [Outcome.ofEntry?, if_neg hne, if_pos hf, hs, Option.bind_some, Text.decode_encode]
  rfl

theorem ofEntry_index (hf : entry.key.field = indexField) {v : UInt64}
    (hv : entry.number? = some v) :
    Clause.ofEntry entry = .index v.toUInt32.toInt32 := by
  rw [Clause.ofEntry, ofEntry?_index hf hv]
  rfl

theorem ofEntry_error (hf : entry.key.field = errorField) {s : String}
    (hs : entry.body? = some (Text.encode s)) : Clause.ofEntry entry = .error s := by
  rw [Clause.ofEntry, ofEntry?_error hf hs]
  rfl

theorem ofEntry?_foreign (hf : Foreign entry) : Outcome.ofEntry? entry = none := by
  rw [Outcome.ofEntry?, if_neg hf.1, if_neg hf.2]

theorem ofEntry_foreign (hf : Foreign entry) : Clause.ofEntry entry = .unknown entry := by
  rw [Clause.ofEntry, ofEntry?_foreign hf]
  rfl

/-- A clause is an entry that a reply can take. -/
theorem exists_entry_of_isClause {bs : Bytes} {c : Clause} (hc : IsClause depth bs c) :
    ∃ entry : Entry, bs = entry.raw ∧ IsEntry depth entry ∧ Admits entry ∧
      c = Clause.ofEntry entry := by
  cases hc with
  | @index head payload v hk hv =>
    let entry : Entry := ⟨⟨indexField, .varint⟩, head ++ payload⟩
    have he : IsEntry depth entry := ⟨head, payload, rfl, hk, .varint rfl hv⟩
    have hn : entry.number? = some v := Entry.number?_eq rfl hk hv
    have ha : Admits entry := ⟨fun _ => rfl, fun h => absurd h indexField_ne_errorField⟩
    exact ⟨entry, rfl, he, ha, (ofEntry_index rfl hn).symm⟩
  | @error head length v s hk hv hl =>
    let entry : Entry := ⟨⟨errorField, .lengthDelimited⟩, head ++ (length ++ Text.encode s)⟩
    have he : IsEntry depth entry := ⟨head, _, rfl, hk, .delimited rfl hv hl⟩
    have hb : entry.body? = some (Text.encode s) := Entry.body?_eq rfl hk hv hl
    have ha : Admits entry :=
      ⟨fun h => absurd h.symm indexField_ne_errorField, fun _ => ⟨rfl, s, hb⟩⟩
    exact ⟨entry, rfl, he, ha, (ofEntry_error rfl hb).symm⟩
  | @unknown entry hf he =>
    have ha : Admits entry := ⟨fun h => absurd h hf.1, fun h => absurd h hf.2⟩
    exact ⟨entry, rfl, he, ha, (ofEntry_foreign hf).symm⟩

/-- An entry that a reply can take is a clause. -/
theorem isClause_ofEntry (he : IsEntry depth entry) (ha : Admits entry) :
    IsClause depth entry.raw (Clause.ofEntry entry) := by
  by_cases h1 : entry.key.field = indexField
  · have htype := ha.1 h1
    obtain ⟨head, tail, v, hraw, hk, hv, hn⟩ := Entry.exists_number he htype
    have hkey : entry.key = ⟨indexField, .varint⟩ := by rw [← h1, ← htype]
    rw [ofEntry_index h1 hn, hraw]
    exact .index (hkey ▸ hk) hv
  · by_cases h2 : entry.key.field = errorField
    · obtain ⟨htype, s, hs⟩ := ha.2 h2
      obtain ⟨head, length, body, v, hraw, hk, hv, hl, hb⟩ := Entry.exists_body he htype
      have hkey : entry.key = ⟨errorField, .lengthDelimited⟩ := by rw [← h2, ← htype]
      have hbody : body = Text.encode s := Option.some.inj (hb.symm.trans hs)
      rw [ofEntry_error h2 hs, hraw, hbody]
      exact .error (hkey ▸ hk) hv (hbody ▸ hl)
    · rw [ofEntry_foreign ⟨h1, h2⟩]
      exact .unknown ⟨h1, h2⟩ he

theorem forall₂_isClause_iff {pieces : List Bytes} {cs : List Clause} :
    List.Forall₂ (IsClause depth) pieces cs ↔
      ∃ entries : List Entry, pieces = entries.map Entry.raw ∧
        (∀ entry ∈ entries, IsEntry depth entry) ∧ (∀ entry ∈ entries, Admits entry) ∧
        cs = entries.map Clause.ofEntry := by
  refine ⟨fun h => ?_, fun hx => ?_⟩
  · induction h with
    | nil => exact ⟨[], rfl, by simp, by simp, rfl⟩
    | cons hc _ ih =>
      obtain ⟨entry, rfl, he, ha, rfl⟩ := exists_entry_of_isClause hc
      obtain ⟨entries, rfl, hes, has, rfl⟩ := ih
      exact ⟨entry :: entries, rfl, List.forall_mem_cons.2 ⟨he, hes⟩,
        List.forall_mem_cons.2 ⟨ha, has⟩, rfl⟩
  · obtain ⟨entries, rfl, hes, has, rfl⟩ := hx
    rw [List.forall₂_map_left_iff, List.forall₂_map_right_iff, List.forall₂_same]
    intro entry hmem
    exact isClause_ofEntry (hes entry hmem) (has entry hmem)

/-- A byte string decodes as a reply exactly if it decodes as a relay whose
entries a reply can take; the reply is what these tell. -/
theorem result_decode_eq_ok_iff_relay {limits : Limits} {bs : Bytes} {m : CopyReply} :
    (Message.decode limits bs : Report CopyReply).result = .ok m ↔
      ∃ relay : Relay, (Message.decode limits bs : Report Relay).result = .ok relay ∧
        (∀ entry ∈ relay.entries, Admits entry) ∧
        m = ofClauses (relay.entries.map Clause.ofEntry) := by
  rw [result_decode_eq_ok_iff_clauses]
  simp only [result_clauses_eq_ok_iff, forall₂_isClause_iff, Relay.result_decode_eq_ok_iff]
  refine ⟨fun hx => ?_, fun hx => ?_⟩
  · obtain ⟨hle, _, ⟨_, hflat, entries, rfl, hes, has, rfl⟩, hm⟩ := hx
    exact ⟨{ entries }, ⟨hle, entries, hflat, hes, rfl⟩, has, hm⟩
  · obtain ⟨_, ⟨hle, entries, hflat, hes, rfl⟩, has, hm⟩ := hx
    exact ⟨hle, _, ⟨_, hflat, entries, rfl, hes, has, rfl⟩, hm⟩

/-! ### The reply that entries tell -/

/-- An entry is of a field that a reply knows. -/
def Known (entry : Entry) : Prop :=
  entry.key.field = indexField ∨ entry.key.field = errorField

instance : DecidablePred Known := fun _ => inferInstanceAs (Decidable (_ ∨ _))

instance : DecidablePred Foreign := fun _ => inferInstanceAs (Decidable (_ ∧ _))

theorem not_known_iff_foreign : ¬ Known entry ↔ Foreign entry := by
  unfold Known Foreign
  tauto

/-- An entry of a field that a reply knows tells an outcome, which its clause puts
in place of the one before. -/
theorem ofEntry_known (he : IsEntry depth entry) (ha : Admits entry) (hknown : Known entry) :
    ∃ o, Outcome.ofEntry? entry = some o ∧
      ∀ m : CopyReply, (Clause.ofEntry entry).apply m = m.replace entry.key.field o := by
  rcases hknown with h1 | h2
  · obtain ⟨_, _, v, -, -, -, hn⟩ := Entry.exists_number he (ha.1 h1)
    refine ⟨_, ofEntry?_index h1 hn, fun m => ?_⟩
    rw [ofEntry_index h1 hn, h1]
    rfl
  · obtain ⟨-, s, hs⟩ := ha.2 h2
    refine ⟨_, ofEntry?_error h2 hs, fun m => ?_⟩
    rw [ofEntry_error h2 hs, h2]
    rfl

/-- The reply that entries tell: the last of those that a reply knows says what
the outcome is, and the others are kept in order. -/
def ofEntries (entries : List Entry) : CopyReply where
  outcome := ((entries.filter Known).getLast?.bind Outcome.ofEntry?).getD .unset
  unknown := entries.filter Foreign

theorem ofEntries_append_known (entries : List Entry) {o : Outcome} (hknown : Known entry)
    (ho : Outcome.ofEntry? entry = some o) :
    ofEntries (entries ++ [entry]) = { ofEntries entries with outcome := o } := by
  have hf : ¬ Foreign entry := fun h => not_known_iff_foreign.2 h hknown
  simp [ofEntries, hknown, hf, ho]

theorem ofEntries_append_foreign (entries : List Entry) (hf : Foreign entry) :
    ofEntries (entries ++ [entry]) = (ofEntries entries).addUnknown entry := by
  have hknown : ¬ Known entry := not_known_iff_foreign.2 hf
  simp [ofEntries, addUnknown, hknown, hf]

theorem ofClauses_map_ofEntry {entries : List Entry}
    (hes : ∀ entry ∈ entries, IsEntry depth entry) (has : ∀ entry ∈ entries, Admits entry) :
    ofClauses (entries.map Clause.ofEntry) = ofEntries entries := by
  -- from the end of the list: the last entry replaces the outcome or is kept
  induction entries using List.reverseRecOn with
  | nil => rfl
  | append_singleton entries entry ih =>
    simp only [List.forall_mem_append, List.forall_mem_singleton] at hes has
    have hinit := ih hes.1 has.1
    rw [List.map_append, List.map_singleton, ofClauses_append, hinit, ← fst_apply]
    by_cases hknown : Known entry
    · obtain ⟨o, ho, hc⟩ := ofEntry_known hes.2 has.2 hknown
      rw [ofEntries_append_known entries hknown ho, hc]
      rfl
    · have hf := not_known_iff_foreign.1 hknown
      rw [ofEntries_append_foreign entries hf, ofEntry_foreign hf]
      rfl

/-- What decodes as a reply and as a relay is the reply that the entries of the
relay tell, and the reply can take them. -/
theorem eq_ofEntries_of_decode {limits : Limits} {bs : Bytes} {m : CopyReply} {relay : Relay}
    (hm : (Message.decode limits bs : Report CopyReply).result = .ok m)
    (hrelay : (Message.decode limits bs : Report Relay).result = .ok relay) :
    m = ofEntries relay.entries ∧
      ∀ entry ∈ relay.entries, IsEntry limits.maxGroupDepth.toNat entry ∧ Admits entry := by
  obtain ⟨relay', hrelay', has, rfl⟩ := result_decode_eq_ok_iff_relay.1 hm
  obtain rfl : relay' = relay := Except.ok.inj (hrelay'.symm.trans hrelay)
  obtain ⟨-, entries, -, hes, rfl⟩ := Relay.result_decode_eq_ok_iff.1 hrelay
  exact ⟨ofClauses_map_ofEntry hes has, fun entry hmem => ⟨hes entry hmem, has entry hmem⟩⟩

/-- **A reply is what a relay decodes, read entry by entry.** It keeps the entries of
other fields, in order, and its outcome is what the last entry of a field that it knows
tells by itself. -/
theorem decode_refines_relay (limits : Limits) (bs : Bytes) :
    ((∃ m, (Message.decode limits bs : Report CopyReply).result = .ok m) ↔
      ∃ relay : Relay, (Message.decode limits bs : Report Relay).result = .ok relay ∧
        ∀ entry ∈ relay.entries,
          (entry.key.field = indexField → entry.key.type = .varint) ∧
          (entry.key.field = errorField →
            entry.key.type = .lengthDelimited ∧
              ∃ s : String, entry.body? = some (Text.encode s))) ∧
    ∀ (m : CopyReply) (relay : Relay),
      (Message.decode limits bs : Report CopyReply).result = .ok m →
      (Message.decode limits bs : Report Relay).result = .ok relay →
      m.unknown = relay.entries.filter Foreign ∧
        ((relay.entries.filter Known).getLast? = none → m.outcome = .unset) ∧
        (∀ entry, (relay.entries.filter Known).getLast? = some entry →
          Outcome.ofEntry? entry = some m.outcome) ∧
        ∀ (limits' : Limits) (bs' : Bytes) (m' : CopyReply) (relay' : Relay),
          (Message.decode limits' bs' : Report CopyReply).result = .ok m' →
          (Message.decode limits' bs' : Report Relay).result = .ok relay' →
          relay'.entries.filter Foreign = relay.entries.filter Foreign →
          (relay'.entries.filter Known).getLast? = (relay.entries.filter Known).getLast? →
          m' = m := by
  refine ⟨⟨fun hx => ?_, fun hx => ?_⟩, fun m relay hm hrelay => ?_⟩
  · obtain ⟨m, hm⟩ := hx
    obtain ⟨relay, hrelay, has, -⟩ := result_decode_eq_ok_iff_relay.1 hm
    exact ⟨relay, hrelay, has⟩
  · obtain ⟨relay, hrelay, has⟩ := hx
    exact ⟨_, result_decode_eq_ok_iff_relay.2 ⟨relay, hrelay, has, rfl⟩⟩
  · obtain ⟨rfl, htaken⟩ := eq_ofEntries_of_decode hm hrelay
    refine ⟨rfl, fun hnone => ?_, fun entry hlast => ?_, ?_⟩
    · rw [ofEntries, hnone]
      rfl
    · have hmem := List.mem_filter.1 (List.mem_of_getLast? hlast)
      obtain ⟨he, ha⟩ := htaken entry hmem.1
      obtain ⟨o, ho, -⟩ := ofEntry_known he ha (of_decide_eq_true hmem.2)
      simp [ofEntries, hlast, ho]
    · intro limits' bs' m' relay' hm' hrelay' hforeign hlast
      obtain ⟨rfl, -⟩ := eq_ofEntries_of_decode hm' hrelay'
      rw [ofEntries, hforeign, hlast, ofEntries]

/-- The index that comes last stands, with or without the failure before it. A failure
that is no text is passed on by a relay and refused by a reply. -/
theorem decode_refines_relay_interleaved :
    let bs : Bytes := [0x12, 0x01, 0x78, 0x18, 0x07, 0x08, 0x05, 0x23, 0x24]
    let bs' : Bytes := [0x18, 0x07, 0x23, 0x24, 0x08, 0x05]
    let m : CopyReply := { outcome := .index 5
                           unknown := [⟨⟨3, .varint⟩, [0x18, 0x07]⟩,
                             ⟨⟨4, .startGroup⟩, [0x23, 0x24]⟩] }
    (Message.decode {} bs : Report CopyReply).result = .ok m ∧
      (∀ m', (Message.decode {} bs' : Report CopyReply).result = .ok m' → m' = m) ∧
      (Message.decode {} [0x12, 0x01, 0xFF] : Report Relay).result =
        .ok { entries := [⟨⟨2, .lengthDelimited⟩, [0x12, 0x01, 0xFF]⟩] } ∧
      ¬ ∃ m, (Message.decode {} [0x12, 0x01, 0xFF] : Report CopyReply).result = .ok m := by
  intro bs bs' m
  have hm : (Message.decode {} bs : Report CopyReply).result = .ok m := by decide +kernel
  have hrelay : (Message.decode {} bs : Report Relay).result =
      .ok { entries := [⟨⟨2, .lengthDelimited⟩, [0x12, 0x01, 0x78]⟩, ⟨⟨3, .varint⟩, [0x18, 0x07]⟩,
        ⟨⟨1, .varint⟩, [0x08, 0x05]⟩, ⟨⟨4, .startGroup⟩, [0x23, 0x24]⟩] } := by decide +kernel
  have hrelay' : (Message.decode {} bs' : Report Relay).result =
      .ok { entries := [⟨⟨3, .varint⟩, [0x18, 0x07]⟩, ⟨⟨4, .startGroup⟩, [0x23, 0x24]⟩,
        ⟨⟨1, .varint⟩, [0x08, 0x05]⟩] } := by decide +kernel
  have hraw : (Message.decode {} [0x12, 0x01, 0xFF] : Report Relay).result =
      .ok { entries := [⟨⟨2, .lengthDelimited⟩, [0x12, 0x01, 0xFF]⟩] } := by decide +kernel
  obtain ⟨-, -, -, hsame⟩ := (decode_refines_relay {} bs).2 m _ hm hrelay
  refine ⟨hm, fun m' hm' => ?_, hraw, fun hx => ?_⟩
  · exact hsame {} bs' m' _ hm' hrelay' (by decide) (by decide)
  · obtain ⟨relay, hr, htaken⟩ := (decode_refines_relay {} [0x12, 0x01, 0xFF]).1.1 hx
    obtain rfl : relay = _ := Except.ok.inj (hr.symm.trans hraw)
    obtain ⟨-, s, hs⟩ := (htaken _ List.mem_cons_self).2 rfl
    have hbody : Entry.body? ⟨⟨2, .lengthDelimited⟩, [0x12, 0x01, 0xFF]⟩ = some [0xFF] := by
      decide +kernel
    have hfault := Text.fault?_encode s
    rw [← Option.some.inj (hbody.symm.trans hs)] at hfault
    exact absurd hfault (by decide +kernel)

end CopyReply
end WireFormat
