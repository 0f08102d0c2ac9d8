/-
# Well-formed entries

An entry is well-formed if its bytes are read to their end, under some limit on
open groups, and the key read is the one it is stored with. A byte string that
can be read under two limits is read in the same way under both: a larger limit
accepts what a smaller one accepts, and a reader has one answer. So a well-formed
entry can be passed over under a limit exactly if its groups are nested at most
that deep.

Key definitions: `Entry.readWhole`, `Entry.WellFormed`, `Entry.Skippable`.
Key theorems: `Grammar.IsPayload.mono`, `Entry.run_readKey_unique`,
`Entry.parse_eq_ok_iff`, `Entry.WellFormed.skippable_iff`,
`Grammar.IsEntry.two_le_length`.
-/
import Mathlib.Order.Basic
import WireFormat.Entry.Grammar
import WireFormat.Proofs.Items

namespace WireFormat
namespace Grammar

/-! ### More groups may be open -/

mutual
/-- A payload stays one when more groups may be open. -/
theorem IsPayload.mono {depth depth' : Nat} {key : Key} {bs : Bytes} (h : depth ≤ depth') :
    IsPayload depth key bs → IsPayload depth' key bs
  | .varint ht hv => .varint ht hv
  | .fixed64 ht hl => .fixed64 ht hl
  | .delimited ht hv hl => .delimited ht hv hl
  | .fixed32 ht hl => .fixed32 ht hl
  | .group ht hb => by
    cases depth' with
    | zero => omega
    | succ outer => exact .group ht (IsBody.mono (by omega) hb)

theorem IsBody.mono {depth depth' : Nat} {field : UInt32} {bs : Bytes} (h : depth ≤ depth') :
    IsBody depth field bs → IsBody depth' field bs
  | .close hk => .close hk
  | .entry hk hp hb => .entry hk (IsPayload.mono h hp) (IsBody.mono h hb)
end

theorem IsEntry.mono {depth depth' : Nat} {entry : Entry} (h : depth ≤ depth')
    (he : IsEntry depth entry) : IsEntry depth' entry := by
  obtain ⟨head, payload, hraw, hk, hp⟩ := he
  exact ⟨head, payload, hraw, hk, hp.mono h⟩

/-! ### What every entry has -/

theorem Digits.length_pos {bs : Bytes} {n : Nat} (h : Digits bs n) : 0 < bs.length := by
  cases h <;> simp

theorem IsVarint.length_pos {bs : Bytes} {v : UInt64} (h : IsVarint bs v) : 0 < bs.length := by
  obtain ⟨-, n, hd, -⟩ := h
  exact hd.length_pos

theorem IsKey.length_pos {bs : Bytes} {key : Key} (h : IsKey bs key) : 0 < bs.length := by
  obtain ⟨tag, hv, -⟩ := h
  exact hv.length_pos

theorem IsBody.length_pos {depth : Nat} {field : UInt32} {bs : Bytes} (h : IsBody depth field bs) :
    0 < bs.length := by
  cases h with
  | close hk => exact hk.length_pos
  | entry hk _ _ =>
    have := hk.length_pos
    rw [List.length_append]
    omega

theorem IsPayload.length_pos {depth : Nat} {key : Key} {bs : Bytes} (h : IsPayload depth key bs) :
    0 < bs.length := by
  cases h with
  | varint _ hv => exact hv.length_pos
  | fixed64 _ hl => omega
  | delimited _ hv _ =>
    have := hv.length_pos
    rw [List.length_append]
    omega
  | fixed32 _ hl => omega
  | group _ hb => exact hb.length_pos

theorem IsPayload.type_ne_endGroup {depth : Nat} {key : Key} {bs : Bytes}
    (h : IsPayload depth key bs) : key.type ≠ .endGroup := by
  intro ht
  cases h <;> simp_all

theorem IsEntry.two_le_length {depth : Nat} {entry : Entry} (h : IsEntry depth entry) :
    2 ≤ entry.raw.length := by
  obtain ⟨head, payload, hraw, hk, hp⟩ := h
  have hhead := hk.length_pos
  have hpayload := hp.length_pos
  rw [hraw, List.length_append]
  omega

theorem IsEntry.field_pos {depth : Nat} {entry : Entry} (h : IsEntry depth entry) :
    0 < entry.key.field.toNat := by
  obtain ⟨_, _, -, ⟨_, -, -, hpos, -⟩, -⟩ := h
  exact hpos

theorem IsEntry.field_le {depth : Nat} {entry : Entry} (h : IsEntry depth entry) :
    entry.key.field.toNat ≤ Key.maxField := by
  obtain ⟨_, _, -, ⟨_, -, -, -, hmax⟩, -⟩ := h
  exact hmax

theorem IsEntry.type_ne_endGroup {depth : Nat} {entry : Entry} (h : IsEntry depth entry) :
    entry.key.type ≠ .endGroup := by
  obtain ⟨_, _, -, -, hp⟩ := h
  exact hp.type_ne_endGroup

end Grammar

namespace Entry

open Grammar

/-! ### Reading an entry to the end of its bytes -/

/-- A key, whose payload is passed over and followed by nothing. -/
def readWhole (limits : Limits) : Reader Key := do
  let key ← readKey limits
  Reader.finish
  return key

/-- Under some limit the bytes of an entry are read to their end, and the key
read is the entry's. -/
def WellFormed (entry : Entry) : Prop :=
  ∃ limits, (readWhole limits).run entry.raw = (.ok entry.key, [])

/-- A key can be read from the bytes of an entry and its payload passed over. -/
def Skippable (limits : Limits) (entry : Entry) : Prop :=
  ∃ key rest, (readKey limits).run entry.raw = (.ok key, rest)

theorem run_finish_eq_ok_iff {bs rest : Bytes} :
    Reader.finish.run bs = (.ok (), rest) ↔ bs = [] ∧ rest = [] := by
  cases bs with
  | nil => simp [eq_comm]
  | cons b bs => simp [Reader.run_finish_cons]

/-- Passing over the bytes of an entry leaves nothing exactly if they are one
entry of the grammar. -/
theorem run_readKey_raw_iff {limits : Limits} {entry : Entry} :
    (readKey limits).run entry.raw = (.ok entry.key, []) ↔
      IsEntry limits.maxGroupDepth.toNat entry := by
  rw [run_readKey_eq_ok_iff]
  simp only [List.append_nil]
  exact Iff.rfl

theorem run_readWhole_eq_ok_iff {limits : Limits} {entry : Entry} :
    (readWhole limits).run entry.raw = (.ok entry.key, []) ↔
      IsEntry limits.maxGroupDepth.toNat entry := by
  rw [← run_readKey_raw_iff, readWhole, Reader.run_bind_eq_ok_iff]
  refine ⟨fun hx => ?_, fun hr => ?_⟩
  · obtain ⟨key, mid, hr, hf⟩ := hx
    obtain ⟨_, rest, hfin, hp⟩ := Reader.run_bind_eq_ok_iff.1 hf
    obtain ⟨rfl, rfl⟩ := run_finish_eq_ok_iff.1 hfin
    cases hp
    exact hr
  · refine ⟨entry.key, [], hr, ?_⟩
    rw [Reader.run_bind_of_ok Reader.run_finish_nil]
    rfl

/-- What parses is one entry of the grammar under the standard limits, kept with
its bytes. -/
theorem parse_eq_ok_iff {raw : Bytes} {entry : Entry} :
    parse raw = .ok entry ↔
      raw = entry.raw ∧ IsEntry Limits.standard.maxGroupDepth.toNat entry := by
  have hread : (read Limits.standard).run raw = (.ok entry, []) ↔
      raw = entry.raw ∧ IsEntry Limits.standard.maxGroupDepth.toNat entry := by
    rw [run_entry_eq_ok_iff, List.append_nil]
  rw [← hread, parse]
  rcases hr : (read Limits.standard).run raw with ⟨e | parsed, rest⟩
  · rw [Reader.run_bind_of_error hr]
    simp
  · rw [Reader.run_bind_of_ok hr]
    cases rest with
    | nil => simp [Reader.run_map]
    | cons b bs => simp [Reader.run_map, Reader.run_finish_cons]

theorem run_readKey_mono {limits limits' : Limits} {bs rest : Bytes} {key : Key}
    (hle : limits.maxGroupDepth.toNat ≤ limits'.maxGroupDepth.toNat)
    (h : (readKey limits).run bs = (.ok key, rest)) :
    (readKey limits').run bs = (.ok key, rest) := by
  obtain ⟨head, payload, hbs, hk, hp⟩ := run_readKey_eq_ok_iff.1 h
  exact run_readKey_eq_ok_iff.2 ⟨head, payload, hbs, hk, hp.mono hle⟩

/-- Two limits that both let an entry be read let the same entry be read. -/
theorem run_readKey_unique {limits limits' : Limits} {bs rest rest' : Bytes} {key key' : Key}
    (h : (readKey limits).run bs = (.ok key, rest))
    (h' : (readKey limits').run bs = (.ok key', rest')) : key = key' ∧ rest = rest' := by
  rcases Nat.le_total limits.maxGroupDepth.toNat limits'.maxGroupDepth.toNat with hle | hle
  · have := run_readKey_mono hle h
    rw [this] at h'
    cases h'
    exact ⟨rfl, rfl⟩
  · have := run_readKey_mono hle h'
    rw [this] at h
    cases h
    exact ⟨rfl, rfl⟩

/-- A well-formed entry can be passed over under a limit exactly if its groups
are nested at most that deep. -/
theorem WellFormed.skippable_iff {entry : Entry} (hwf : entry.WellFormed) (limits : Limits) :
    entry.Skippable limits ↔ IsEntry limits.maxGroupDepth.toNat entry := by
  obtain ⟨loose, hloose⟩ := hwf
  have hall : (readKey loose).run entry.raw = (.ok entry.key, []) :=
    run_readKey_raw_iff.2 (run_readWhole_eq_ok_iff.1 hloose)
  rw [← run_readKey_raw_iff]
  refine ⟨fun hx => ?_, fun hr => ?_⟩
  · obtain ⟨key, rest, hr⟩ := hx
    -- both limits read the same key and leave the same bytes, which is nothing
    obtain ⟨rfl, rfl⟩ := run_readKey_unique hr hall
    exact hr
  · exact ⟨entry.key, [], hr⟩

end Entry
end WireFormat
