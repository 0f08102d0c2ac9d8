/-
# How deep groups are nested

The nesting of a payload is the number of groups that are open where most of them
are. It is a fact about the bytes alone, said along their grammar: a payload that
is no group has nesting 0, a group has one more than what stands in it, and entries
in a row have that of the deepest. A payload is passed over under a limit exactly if
its nesting is within the limit; otherwise reading stops at the first group that is
too deep, and it stops for that reason.

So an entry that was read under some limits has one nesting, which these limits
allow, and it parses by itself exactly if the standard limits allow it too.

Key definitions: `Grammar.NestsPayload`, `Grammar.NestsBody`, `Grammar.NestsEntry`.
Key theorems: `Grammar.NestsPayload.isPayload`, `Grammar.NestsPayload.of_isPayload`,
`Grammar.run_payload_of_nests`, `Grammar.NestsEntry.run_readKey`,
`Grammar.IsEntry.exists_nests`, `Entry.parse_of_nests_le`, `Entry.parse_of_lt_nests`.
-/
import WireFormat.Proofs.Entry.WellFormed
import WireFormat.Proofs.Incremental

namespace WireFormat
namespace Grammar

/-! ### Nesting -/

mutual
/-- The payload of a key, with so many groups open where most of them are. -/
inductive NestsPayload : Nat → Key → Bytes → Prop where
  /-- Where no group may be open, none is. -/
  | flat {key : Key} {bs : Bytes} : IsPayload 0 key bs → NestsPayload 0 key bs
  /-- A group is open around what stands in it. -/
  | group {depth : Nat} {key : Key} {body : Bytes} :
      key.type = .startGroup → NestsBody depth key.field body → NestsPayload (depth + 1) key body

/-- Entries up to the end key of a field, with so many groups open in one of them. -/
inductive NestsBody : Nat → UInt32 → Bytes → Prop where
  | close {field : UInt32} {bs : Bytes} : IsKey bs ⟨field, .endGroup⟩ → NestsBody 0 field bs
  | entry {depth depth' : Nat} {field : UInt32} {key : Key} {head payload rest : Bytes} :
      IsKey head key → NestsPayload depth key payload → NestsBody depth' field rest →
      NestsBody (max depth depth') field (head ++ (payload ++ rest))
end

/-- An entry whose payload has so many groups open where most of them are. -/
def NestsEntry (depth : Nat) (entry : Entry) : Prop :=
  ∃ head payload, entry.raw = head ++ payload ∧ IsKey head entry.key ∧
    NestsPayload depth entry.key payload

mutual
theorem NestsPayload.isPayload {depth limit : Nat} {key : Key} {bs : Bytes} (h : depth ≤ limit) :
    NestsPayload depth key bs → IsPayload limit key bs
  | .flat hp => hp.mono h
  | .group ht hb => by
    cases limit with
    | zero => omega
    | succ limit => exact .group ht (NestsBody.isBody (by omega) hb)

theorem NestsBody.isBody {depth limit : Nat} {field : UInt32} {bs : Bytes} (h : depth ≤ limit) :
    NestsBody depth field bs → IsBody limit field bs
  | .close hk => .close hk
  | .entry hk hp hb => .entry hk (NestsPayload.isPayload (by omega) hp)
      (NestsBody.isBody (by omega) hb)
end

mutual
/-- Every payload has a nesting, within what may be open. -/
theorem NestsPayload.of_isPayload {limit : Nat} {key : Key} {bs : Bytes} :
    IsPayload limit key bs → ∃ depth ≤ limit, NestsPayload depth key bs
  | .varint ht hv => ⟨0, Nat.zero_le _, .flat (.varint ht hv)⟩
  | .fixed64 ht hl => ⟨0, Nat.zero_le _, .flat (.fixed64 ht hl)⟩
  | .delimited ht hv hl => ⟨0, Nat.zero_le _, .flat (.delimited ht hv hl)⟩
  | .fixed32 ht hl => ⟨0, Nat.zero_le _, .flat (.fixed32 ht hl)⟩
  | .group ht hb => by
    obtain ⟨depth, hle, hn⟩ := NestsBody.of_isBody hb
    exact ⟨depth + 1, by omega, .group ht hn⟩

theorem NestsBody.of_isBody {limit : Nat} {field : UInt32} {bs : Bytes} :
    IsBody limit field bs → ∃ depth ≤ limit, NestsBody depth field bs
  | .close hk => ⟨0, Nat.zero_le _, .close hk⟩
  | .entry hk hp hb => by
    obtain ⟨depth, hle, hn⟩ := NestsPayload.of_isPayload hp
    obtain ⟨depth', hle', hn'⟩ := NestsBody.of_isBody hb
    exact ⟨max depth depth', by omega, .entry hk hn hn'⟩
end

theorem NestsPayload.type_ne_endGroup {depth : Nat} {key : Key} {bs : Bytes}
    (h : NestsPayload depth key bs) : key.type ≠ .endGroup :=
  (h.isPayload (Nat.le_refl depth)).type_ne_endGroup

/-! ### Reading what is nested too deep -/

/-- A round inside a group that starts with the key of an entry passes over the entry. -/
theorem run_groupRound_of_isKey {skip : Key → Reader Unit} {field : UInt32} {head : Bytes}
    {key : Key} (hk : IsKey head key) (htype : key.type ≠ .endGroup) (rest : Bytes) :
    (Skip.groupRound skip field).run (head ++ rest) =
      match (skip key).run rest with
      | (.ok _, left) => (.ok none, left)
      | (.error e, left) => (.error e, left) := by
  have hread : Key.read.run (head ++ rest) = (.ok key, rest) :=
    run_key_eq_ok_iff.2 ⟨head, rfl, hk⟩
  rw [Skip.groupRound, Reader.run_bind_of_ok hread, if_neg htype, Reader.run_bind]
  rcases (skip key).run rest with ⟨e | _, left⟩ <;> rfl

mutual
/-- Passing over a payload stops where more groups would be open than may be. -/
theorem run_payload_of_nests (limit : Nat) {budget depth : Nat} {key : Key} {used : Bytes}
    (h : budget < depth) (rest : Bytes) :
    NestsPayload depth key used →
    ∃ left, (Skip.payload (Skip.group limit budget) key).run (used ++ rest) =
      (.error (.malformed (.groupsTooDeep limit)), left)
  | .flat _ => absurd h (Nat.not_lt_zero _)
  | .group ht hb => by
    simp only [Skip.payload, ht]
    cases budget with
    | zero => exact ⟨_, Skip.run_group_zero limit key.field _⟩
    | succ budget => exact run_group_of_nests limit (by omega) rest hb

theorem run_group_of_nests (limit : Nat) {budget depth : Nat} {field : UInt32} {used : Bytes}
    (h : budget < depth) (rest : Bytes) :
    NestsBody depth field used →
    ∃ left, (Skip.group limit (budget + 1) field).run (used ++ rest) =
      (.error (.malformed (.groupsTooDeep limit)), left)
  | .close _ => absurd h (Nat.not_lt_zero _)
  | @NestsBody.entry first others _ key head payload tail hk hp hb => by
    rw [Skip.run_group_succ, List.append_assoc, run_groupRound_of_isKey hk hp.type_ne_endGroup,
      List.append_assoc]
    by_cases hfirst : budget < first
    · obtain ⟨left, hstop⟩ := run_payload_of_nests limit hfirst (tail ++ rest) hp
      rw [hstop]
      exact ⟨left, rfl⟩
    · -- the first entry is within the limit, so one of the others is not
      rw [run_payload_of_isPayload (tail ++ rest) (hp.isPayload (Nat.le_of_not_lt hfirst))]
      exact run_group_of_nests limit (by omega) rest hb
end

/-! ### Entries -/

theorem IsEntry.exists_nests {limit : Nat} {entry : Entry} (he : IsEntry limit entry) :
    ∃ depth ≤ limit, NestsEntry depth entry := by
  obtain ⟨head, payload, hraw, hk, hp⟩ := he
  obtain ⟨depth, hle, hn⟩ := NestsPayload.of_isPayload hp
  exact ⟨depth, hle, head, payload, hraw, hk, hn⟩

theorem NestsEntry.isEntry {depth limit : Nat} {entry : Entry} (hn : NestsEntry depth entry)
    (h : depth ≤ limit) : IsEntry limit entry := by
  obtain ⟨head, payload, hraw, hk, hp⟩ := hn
  exact ⟨head, payload, hraw, hk, hp.isPayload h⟩

theorem NestsEntry.run_readKey {depth : Nat} {entry : Entry} (hn : NestsEntry depth entry)
    {limits : Limits} (h : limits.maxGroupDepth.toNat < depth) :
    ∃ left, (Entry.readKey limits).run entry.raw =
      (.error (.malformed (.groupsTooDeep limits.maxGroupDepth.toNat)), left) := by
  obtain ⟨head, payload, hraw, hk, hp⟩ := hn
  obtain ⟨left, hstop⟩ := run_payload_of_nests limits.maxGroupDepth.toNat h [] hp
  rw [List.append_nil] at hstop
  have hread : Key.read.run entry.raw = (.ok entry.key, payload) :=
    run_key_eq_ok_iff.2 ⟨head, hraw, hk⟩
  refine ⟨left, ?_⟩
  rw [Entry.readKey, Reader.run_bind_of_ok hread]
  exact Reader.run_bind_of_error hstop

theorem NestsEntry.le_of_isEntry {depth limit : Nat} {entry : Entry}
    (hn : NestsEntry depth entry) (he : IsEntry limit entry) : depth ≤ limit := by
  obtain ⟨head, payload, hraw, hk, hp⟩ := hn
  obtain ⟨head', payload', hraw', hk', hp'⟩ := he
  have hread : Key.read.run entry.raw = (.ok entry.key, payload) :=
    run_key_eq_ok_iff.2 ⟨head, hraw, hk⟩
  rw [run_key_eq_ok_iff.2 ⟨head', hraw', hk'⟩] at hread
  obtain rfl : payload' = payload := (Prod.mk.inj hread).2
  by_contra hlt
  obtain ⟨left, hstop⟩ := run_payload_of_nests limit (Nat.lt_of_not_le hlt) [] hp
  rw [run_payload_of_isPayload [] hp'] at hstop
  cases hstop

/-- An entry has one nesting. -/
theorem NestsEntry.unique {depth depth' : Nat} {entry : Entry} (hn : NestsEntry depth entry)
    (hn' : NestsEntry depth' entry) : depth = depth' :=
  Nat.le_antisymm (hn.le_of_isEntry (hn'.isEntry (Nat.le_refl _)))
    (hn'.le_of_isEntry (hn.isEntry (Nat.le_refl _)))

end Grammar

namespace Entry

open Grammar

/-! ### Parsing by itself -/

variable {entry : Entry} {depth : Nat}

theorem parse_of_nests_le (hn : NestsEntry depth entry)
    (h : depth ≤ Limits.standard.maxGroupDepth.toNat) : parse entry.raw = .ok entry :=
  parse_eq_ok_iff.2 ⟨rfl, hn.isEntry h⟩

/-- An entry that is nested deeper than the standard limits allow does not parse, for
that reason. -/
theorem parse_of_lt_nests (hn : NestsEntry depth entry)
    (h : Limits.standard.maxGroupDepth.toNat < depth) :
    parse entry.raw =
      .error (.malformed (.groupsTooDeep Limits.standard.maxGroupDepth.toNat)) := by
  obtain ⟨left, hstop⟩ := hn.run_readKey h
  have hread : (read Limits.standard).run entry.raw =
      (.error (.malformed (.groupsTooDeep Limits.standard.maxGroupDepth.toNat)), left) :=
    Reader.run_bind_of_error (Reader.run_captured_of_error hstop)
  rw [parse, Reader.run_bind_of_error hread]

end Entry
end WireFormat
