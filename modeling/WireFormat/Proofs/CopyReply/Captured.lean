/-
# Entries that are kept are entries that parse

An entry comes to be kept in two ways: it is parsed by itself, under the standard
limits and with nothing after it, or a decoder cuts it out of a byte string under
the limits of the call. Both keep the same bytes under the same key. What parses is
what a relay decodes to one entry, and what a reply decodes to one entry if the
field is none of its own. What a decoder cut out parses exactly if its groups are
nested as the standard limits allow; where they are not, that is the error.

Key theorems: `Relay.result_decode_singleton_iff`,
`CopyReply.result_decode_of_parse`, `CopyReply.isEntry_of_kept`.
-/
import WireFormat.Proofs.CopyReply.Relayed
import WireFormat.Proofs.Entry.Nesting

namespace WireFormat

open Grammar

variable {limits : Limits} {bs : Bytes} {entry : Entry}

theorem Relay.result_decode_singleton_iff (hle : bs.length ≤ limits.maxMessageLength.toNat) :
    (Message.decode limits bs : Report Relay).result = .ok { entries := [entry] } ↔
      bs = entry.raw ∧ IsEntry limits.maxGroupDepth.toNat entry := by
  rw [Relay.result_decode_eq_ok_iff]
  refine ⟨fun hx => ?_, fun hx => ?_⟩
  · obtain ⟨-, entries, hflat, hes, heq⟩ := hx
    obtain rfl : [entry] = entries := (Relay.mk.inj heq).2
    exact ⟨by simpa using hflat.symm, hes entry List.mem_cons_self⟩
  · obtain ⟨rfl, he⟩ := hx
    exact ⟨hle, [entry], by simp, by simpa using he, rfl⟩

namespace CopyReply

/-- What parses as an entry of another field decodes to a reply that keeps it and
holds nothing else. -/
theorem result_decode_of_parse
    (hle : bs.length ≤ Limits.standard.maxMessageLength.toNat)
    (hparse : Entry.parse bs = .ok entry) (hf : Foreign entry) :
    (Message.decode Limits.standard bs : Report CopyReply).result =
      .ok { outcome := .unset, unknown := [entry] } := by
  have hrelay : (Message.decode Limits.standard bs : Report Relay).result =
      .ok { entries := [entry] } :=
    (Relay.result_decode_singleton_iff hle).2 (Entry.parse_eq_ok_iff.1 hparse)
  have hadmits : Admits entry := ⟨fun h => absurd h hf.1, fun h => absurd h hf.2⟩
  refine result_decode_eq_ok_iff_relay.2 ⟨_, hrelay, by simpa using hadmits, ?_⟩
  rw [List.map_singleton, ofEntry_foreign hf]
  rfl

theorem isEntry_of_kept
    (h : (∃ m, (Message.decode limits bs : Report CopyReply).result = .ok m ∧
        entry ∈ m.unknown) ∨
      ∃ relay, (Message.decode limits bs : Report Relay).result = .ok relay ∧
        entry ∈ relay.entries) :
    IsEntry limits.maxGroupDepth.toNat entry := by
  rcases h with ⟨m, hm, hmem⟩ | ⟨relay, hrelay, hmem⟩
  · exact (mem_unknown_of_decode hm hmem).2
  · obtain ⟨-, entries, -, hes, rfl⟩ := Relay.result_decode_eq_ok_iff.1 hrelay
    exact hes entry hmem

/-- **Parsing and decoding keep the same entries.** What parses is what a relay decodes
to that entry alone, and an entry that a decoder kept parses exactly if it is nested at
most 100 deep. -/
theorem parse_agrees_with_decode :
    (∀ (raw : Bytes) (entry : Entry), raw.length ≤ 67108864 →
      (Entry.parse raw = .ok entry ↔
        (Message.decode Limits.standard raw : Report Relay).result =
          .ok { entries := [entry] }) ∧
      (Entry.parse raw = .ok entry →
        entry.key.field ≠ indexField → entry.key.field ≠ errorField →
        (Message.decode Limits.standard raw : Report CopyReply).result =
          .ok { outcome := .unset, unknown := [entry] })) ∧
    ∀ (limits : Limits) (bs : Bytes) (entry : Entry),
      ((∃ m, (Message.decode limits bs : Report CopyReply).result = .ok m ∧
          entry ∈ m.unknown) ∨
        ∃ relay, (Message.decode limits bs : Report Relay).result = .ok relay ∧
          entry ∈ relay.entries) →
      (limits.maxGroupDepth ≤ 100 → Entry.parse entry.raw = .ok entry) ∧
      ∃ depth, (∀ n, NestsEntry n entry ↔ n = depth) ∧
        depth ≤ limits.maxGroupDepth.toNat ∧
        (Entry.parse entry.raw = .ok entry ↔ depth ≤ 100) ∧
        (100 < depth → Entry.parse entry.raw = .error (.malformed (.groupsTooDeep 100))) := by
  refine ⟨fun raw entry hle => ⟨?_, fun hparse h1 h2 => ?_⟩, fun limits bs entry hkept => ?_⟩
  · rw [Entry.parse_eq_ok_iff, Relay.result_decode_singleton_iff hle]
  · exact result_decode_of_parse hle hparse ⟨h1, h2⟩
  · have he := isEntry_of_kept hkept
    obtain ⟨depth, hle, hn⟩ := he.exists_nests
    refine ⟨fun htight => ?_, depth, fun n => ⟨fun hn' => hn'.unique hn, fun h => h ▸ hn⟩, hle,
      ⟨fun hparse => ?_, Entry.parse_of_nests_le hn⟩, Entry.parse_of_lt_nests hn⟩
    · exact Entry.parse_of_nests_le hn (Nat.le_trans hle (UInt32.le_iff_toNat_le.1 htight))
    · exact hn.le_of_isEntry (Entry.parse_eq_ok_iff.1 hparse).2

/-- A group inside a group is kept where two groups may be open, and parses. Groups
that are nested 101 deep are kept where they may be, and do not parse. -/
theorem parse_agrees_with_decode_nested :
    let shallow : Entry := ⟨⟨3, .startGroup⟩, [0x1B, 0x23, 0x24, 0x1C]⟩
    let deep : Entry :=
      ⟨⟨3, .startGroup⟩, List.replicate 101 0x1B ++ List.replicate 101 0x1C⟩
    Entry.parse shallow.raw = .ok shallow ∧
    (Message.decode Limits.standard shallow.raw : Report CopyReply).result =
      .ok { outcome := .unset, unknown := [shallow] } ∧
    Entry.parse deep.raw = .error (.malformed (.groupsTooDeep 100)) := by
  intro shallow deep
  have hshallow : (Message.decode { maxGroupDepth := 2 } ([0x08, 0x05] ++ shallow.raw) :
      Report CopyReply).result = .ok { outcome := .index 5, unknown := [shallow] } := by
    decide +kernel
  have hdeep : (Message.decode { maxGroupDepth := 101 } deep.raw : Report Relay).result =
      .ok { entries := [deep] } := by decide +kernel
  obtain ⟨hwhole, hkept⟩ := parse_agrees_with_decode
  have hparse : Entry.parse shallow.raw = .ok shallow :=
    (hkept _ _ shallow (.inl ⟨_, hshallow, List.mem_cons_self⟩)).1 (by decide)
  refine ⟨hparse, (hwhole shallow.raw shallow (by decide)).2 hparse (by decide) (by decide), ?_⟩
  obtain ⟨-, depth, -, -, hiff, hfail⟩ := hkept _ _ deep (.inr ⟨_, hdeep, List.mem_cons_self⟩)
  have hrefused : ¬ Entry.parse deep.raw = .ok deep := by decide +kernel
  exact hfail (Nat.lt_of_not_le fun hle => hrefused (hiff.2 hle))

end CopyReply
end WireFormat
