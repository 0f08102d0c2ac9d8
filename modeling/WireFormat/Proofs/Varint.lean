/-
# The shortest varint

A varint of some bytes holds a number below the power of 128 that the bytes count,
padding or not, and what does not fit into sixty-four bits only makes the value
smaller. So no byte string that reads as a value has fewer bytes than the one that
is written for it, and the same holds of keys.

Key theorems: `Grammar.Digits.lt_pow`, `Varint.length_le_of_lt_pow`,
`Grammar.IsVarint.length_le`, `Grammar.IsKey.length_le`.
-/
import WireFormat.Proofs.Entry.WellFormed

namespace WireFormat

/-- Digits hold a number below the power of 128 that they count. -/
theorem Grammar.Digits.lt_pow {bs : Bytes} {n : Nat} (h : Digits bs n) :
    n < Nat.pow 128 bs.length := by
  induction h with
  | last hb => simpa using hb
  | @more b bs n _ _ ih =>
    have hdigit : b.toNat % 128 < 128 := Nat.mod_lt _ (by decide)
    show b.toNat % 128 + 128 * n < Nat.pow 128 bs.length * 128
    omega

namespace Varint

/-- A value below a power of 128 is written in as many bytes. -/
theorem length_le_of_lt_pow {v : UInt64} {count : Nat} (hpos : 0 < count)
    (h : v.toNat < Nat.pow 128 count) : length v ≤ count := by
  have hpow : Nat.pow 128 count = 2 ^ (7 * count) := (Nat.pow_mul 2 7 count).symm
  have hlog : v.toNat.log2 < 7 * count := by
    by_cases hzero : v.toNat = 0
    · rw [hzero, Nat.log2_zero]
      omega
    · rw [Nat.log2_lt hzero, ← hpow]
      exact h
  unfold length
  omega

theorem length_le_maxLength (v : UInt64) : length v ≤ maxLength :=
  length_le_of_lt_pow (by decide) (Nat.lt_trans v.toNat_lt (by decide))

end Varint

namespace Grammar

theorem IsVarint.toNat_lt_pow {bs : Bytes} {v : UInt64} (h : IsVarint bs v) :
    v.toNat < Nat.pow 128 bs.length := by
  obtain ⟨-, n, hd, rfl⟩ := h
  rw [UInt64.toNat_ofNat']
  exact Nat.lt_of_le_of_lt (Nat.mod_le _ _) hd.lt_pow

/-- No varint of a value is shorter than the one written for it, nor for a value
below it. -/
theorem IsVarint.length_le {bs : Bytes} {v w : UInt64} (h : IsVarint bs v)
    (hw : w.toNat ≤ v.toNat) : Varint.length w ≤ bs.length :=
  Varint.length_le_of_lt_pow h.length_pos (Nat.lt_of_le_of_lt hw h.toNat_lt_pow)

theorem IsKey.length_le {bs : Bytes} {key : Key} (h : IsKey bs key) :
    key.length ≤ bs.length := by
  obtain ⟨tag, hv, htag, -, hmax⟩ := h
  refine hv.length_le ?_
  unfold Key.maxField at hmax
  rw [UInt32.toNat_toUInt64, Key.toNat_tag, htag, Key.maxField]
  omega

end Grammar
end WireFormat
