/-
# Entries end by themselves

The bytes of an entry say where it ends: what follows them changes neither the
key that is read nor the place where reading stops, and neither does the limit
under which it is read, as long as it can be read at all. So no well-formed entry
is the beginning of another one, and the bytes of well-formed entries, one after
the other, can be cut into entries in one way only. Entries are therefore known
from what is written of them.

Key theorems: `Entry.WellFormed.run_readKey_append`, `Entry.eq_of_raw_append_eq`,
`Entry.flatten_raw_inj`, `Entry.written_putAll_raw`.
-/
import WireFormat.Proofs.Entry.WellFormed
import WireFormat.Writer

namespace WireFormat
namespace Entry

open Grammar

variable {a b : Entry}

/-! ### One entry -/

/-- The key of a well-formed entry is read, and its payload passed over, whatever
follows. -/
theorem WellFormed.run_readKey_append (ha : a.WellFormed) (rest : Bytes) :
    ∃ limits, (readKey limits).run (a.raw ++ rest) = (.ok a.key, rest) := by
  obtain ⟨limits, hwhole⟩ := ha
  obtain ⟨head, payload, hraw, hk, hp⟩ := run_readWhole_eq_ok_iff.1 hwhole
  exact ⟨limits, run_readKey_eq_ok_iff.2 ⟨head, payload, by rw [hraw], hk, hp⟩⟩

theorem WellFormed.raw_ne_nil (ha : a.WellFormed) : a.raw ≠ [] := by
  obtain ⟨limits, hwhole⟩ := ha
  have htwo := (run_readWhole_eq_ok_iff.1 hwhole).two_le_length
  intro hnil
  rw [hnil] at htwo
  exact absurd htwo (by decide)

/-- Byte strings that start with well-formed entries and are equal start with the
same entry and go on with the same bytes. -/
theorem eq_of_raw_append_eq (ha : a.WellFormed) (hb : b.WellFormed) {s t : Bytes}
    (h : a.raw ++ s = b.raw ++ t) : a = b ∧ s = t := by
  obtain ⟨la, hra⟩ := ha.run_readKey_append s
  obtain ⟨lb, hrb⟩ := hb.run_readKey_append t
  rw [h] at hra
  -- the two limits may differ, but both let the same bytes be read
  obtain ⟨hkey, hrest⟩ := run_readKey_unique hra hrb
  have hraw : a.raw = b.raw := by
    rw [hrest] at h
    exact List.append_cancel_right h
  obtain ⟨key, raw⟩ := a
  obtain ⟨key', raw'⟩ := b
  exact ⟨by rw [Entry.mk.injEq]; exact ⟨hkey, hraw⟩, hrest⟩

/-! ### Entries one after the other -/

/-- The bytes of well-formed entries are cut into entries in one way. -/
theorem flatten_raw_inj {xs ys : List Entry} (hx : ∀ entry ∈ xs, entry.WellFormed)
    (hy : ∀ entry ∈ ys, entry.WellFormed)
    (h : (xs.map Entry.raw).flatten = (ys.map Entry.raw).flatten) : xs = ys := by
  induction xs generalizing ys with
  | nil =>
    cases ys with
    | nil => rfl
    | cons y ys =>
      have hne := (hy y List.mem_cons_self).raw_ne_nil
      rw [List.map_cons, List.flatten_cons] at h
      exact absurd (List.append_eq_nil_iff.1 h.symm).1 hne
  | cons x xs ih =>
    cases ys with
    | nil =>
      have hne := (hx x List.mem_cons_self).raw_ne_nil
      rw [List.map_cons, List.flatten_cons] at h
      exact absurd (List.append_eq_nil_iff.1 h).1 hne
    | cons y ys =>
      rw [List.map_cons, List.flatten_cons, List.map_cons, List.flatten_cons] at h
      obtain ⟨rfl, htail⟩ :=
        eq_of_raw_append_eq (hx x List.mem_cons_self) (hy y List.mem_cons_self) h
      rw [ih (fun entry hmem => hx entry (List.mem_cons_of_mem _ hmem))
        (fun entry hmem => hy entry (List.mem_cons_of_mem _ hmem)) htail]

theorem written_putAll_raw {w : Writer} {entries : List Entry}
    (hfit : totalLength entries ≤ w.free.length) :
    (w.putAll (entries.map Entry.raw)).1 = .ok () ∧
      (w.putAll (entries.map Entry.raw)).2.written =
        w.written ++ (entries.map Entry.raw).flatten := by
  rw [totalLength_eq] at hfit
  rw [Writer.putAll_of_le hfit]
  exact ⟨rfl, rfl⟩

/-- **Entries end by themselves.** No well-formed entry begins another, whichever limits
the two were read under, so well-formed entries are the same exactly if their bytes are. -/
theorem wellFormed_prefix_code :
    (∀ a b : Entry, a.WellFormed → b.WellFormed → a.raw <+: b.raw → a = b) ∧
    ∀ xs ys : List Entry, (∀ entry ∈ xs, entry.WellFormed) → (∀ entry ∈ ys, entry.WellFormed) →
      ((xs.map Entry.raw).flatten = (ys.map Entry.raw).flatten ↔ xs = ys) ∧
      ∀ w : Writer, totalLength xs ≤ w.free.length → totalLength ys ≤ w.free.length →
        (w.putAll (xs.map Entry.raw)).1 = .ok () ∧ (w.putAll (ys.map Entry.raw)).1 = .ok () ∧
          ((w.putAll (xs.map Entry.raw)).2.written = (w.putAll (ys.map Entry.raw)).2.written ↔
            xs = ys) := by
  refine ⟨fun a b ha hb hbegins => ?_, fun xs ys hx hy => ?_⟩
  · obtain ⟨rest, hraw⟩ := hbegins
    have happend : a.raw ++ rest = b.raw ++ [] := by rw [hraw, List.append_nil]
    exact (eq_of_raw_append_eq ha hb happend).1
  · have hbytes : (xs.map Entry.raw).flatten = (ys.map Entry.raw).flatten ↔ xs = ys :=
      ⟨flatten_raw_inj hx hy, fun h => by rw [h]⟩
    refine ⟨hbytes, fun w hxfit hyfit => ?_⟩
    obtain ⟨hxok, hxw⟩ := written_putAll_raw hxfit
    obtain ⟨hyok, hyw⟩ := written_putAll_raw hyfit
    refine ⟨hxok, hyok, ?_⟩
    rw [hxw, hyw, List.append_cancel_left_eq]
    exact hbytes

/-- A group inside a group and a padded number under a padded key: neither is the
beginning of the other, and their eight bytes are those of no other entries. -/
theorem wellFormed_prefix_code_group :
    let group : Entry := ⟨⟨3, .startGroup⟩, [0x1B, 0x23, 0x24, 0x1C]⟩
    let number : Entry := ⟨⟨3, .varint⟩, [0x98, 0x00, 0x85, 0x00]⟩
    (¬ group.raw <+: number.raw ∧ ¬ number.raw <+: group.raw) ∧
    ∀ entries : List Entry, (∀ entry ∈ entries, entry.WellFormed) →
      (entries.map Entry.raw).flatten = [0x1B, 0x23, 0x24, 0x1C, 0x98, 0x00, 0x85, 0x00] →
      entries = [group, number] := by
  intro group number
  have hgroup : group.WellFormed := ⟨{ maxGroupDepth := 2 }, by decide +kernel⟩
  have hnumber : number.WellFormed := ⟨{ maxGroupDepth := 0 }, by decide +kernel⟩
  have hboth : ∀ entry ∈ [group, number], entry.WellFormed := by
    simp only [List.forall_mem_cons]
    exact ⟨hgroup, hnumber, by simp⟩
  obtain ⟨hbegin, hlists⟩ := wellFormed_prefix_code
  refine ⟨⟨fun h => ?_, fun h => ?_⟩, fun entries hentries hbytes => ?_⟩
  · exact absurd (hbegin _ _ hgroup hnumber h) (by decide)
  · exact absurd (hbegin _ _ hnumber hgroup h) (by decide)
  · exact (hlists entries [group, number] hentries hboth).1.1 hbytes

end Entry
end WireFormat
