/-
# Varints

A number is written in base 128, least significant digit first; every byte but
the last has its high bit set. Sixty-four bits take at most ten bytes. A reader
accepts padded forms too, and drops what does not fit into sixty-four bits.

Key definitions: `Varint.digits`, `Varint.encode`, `Varint.length`, `Varint.read`.
Key theorems: `Varint.length_encode`, `Varint.run_read_encode`,
`Varint.consumes_read`.
-/
import WireFormat.Reader

namespace WireFormat
namespace Varint

/-- The most bytes a varint has. -/
def maxLength : Nat := 10

/-- The base 128 digits of a number, all but the last marked as going on. -/
def digits (n : Nat) : Bytes :=
  if n < 128 then [UInt8.ofNat n] else UInt8.ofNat (n % 128 + 128) :: digits (n / 128)

/-- The shortest varint of a value. -/
def encode (v : UInt64) : Bytes := digits v.toNat

/-- The number of bytes of the shortest varint: one for each seven bits begun. -/
def length (v : UInt64) : Nat := v.toNat.log2 / 7 + 1

/-- A number of at most `count` digits. -/
def readDigits : (count : Nat) → Reader Nat
  | 0 => Reader.fail (.malformed (.varintTooLong maxLength))
  | count + 1 => do
    let b ← Reader.byte
    if b.toNat < 128 then
      return b.toNat
    else
      let high ← readDigits count
      return b.toNat % 128 + 128 * high

/-- A varint, as the lowest sixty-four bits of its number. -/
def read : Reader UInt64 := do
  let n ← readDigits maxLength
  return UInt64.ofNat n

/-! ### The digits of a number -/

theorem digits_of_lt {n : Nat} (h : n < 128) : digits n = [UInt8.ofNat n] := by
  rw [digits, if_pos h]

theorem digits_of_le {n : Nat} (h : 128 ≤ n) :
    digits n = UInt8.ofNat (n % 128 + 128) :: digits (n / 128) := by
  rw [digits, if_neg (by omega)]

theorem digits_ne_nil (n : Nat) : digits n ≠ [] := by
  rw [digits]
  split <;> simp

theorem log2_eq_add_seven {n : Nat} (h : 128 ≤ n) : n.log2 = (n / 128).log2 + 7 := by
  have h128 : n / 128 = n / 2 / 2 / 2 / 2 / 2 / 2 / 2 := by omega
  have step : ∀ {k : Nat}, 2 ≤ k → k.log2 = (k / 2).log2 + 1 := fun {k} hk => by
    rw [Nat.log2_def, if_pos hk]
  rw [h128, step (k := n) (by omega), step (k := n / 2) (by omega),
    step (k := n / 2 / 2) (by omega), step (k := n / 2 / 2 / 2) (by omega),
    step (k := n / 2 / 2 / 2 / 2) (by omega), step (k := n / 2 / 2 / 2 / 2 / 2) (by omega),
    step (k := n / 2 / 2 / 2 / 2 / 2 / 2) (by omega)]

theorem length_digits (n : Nat) : (digits n).length = n.log2 / 7 + 1 := by
  rcases Nat.lt_or_ge n 128 with h | h
  · have hlog : n.log2 < 7 := by
      rcases Nat.eq_zero_or_pos n with rfl | hn
      · decide
      · exact (Nat.log2_lt (by omega)).2 h
    rw [digits_of_lt h, List.length_singleton, Nat.div_eq_of_lt hlog]
  · rw [digits_of_le h, List.length_cons, length_digits (n / 128), log2_eq_add_seven h]
    omega
termination_by n

theorem length_encode (v : UInt64) : (encode v).length = length v :=
  length_digits v.toNat

theorem length_pos (v : UInt64) : 0 < length v := Nat.succ_pos _

/-! ### Reading a number -/

theorem run_readDigits_cons_lt (count : Nat) {b : UInt8} (bs : Bytes) (h : b.toNat < 128) :
    (readDigits (count + 1)).run (b :: bs) = (.ok b.toNat, bs) := by
  rw [readDigits, Reader.run_bind_of_ok (Reader.run_byte_cons b bs), if_pos h]
  rfl

theorem run_readDigits_cons_ge (count : Nat) {b : UInt8} (bs : Bytes) (h : 128 ≤ b.toNat) :
    (readDigits (count + 1)).run (b :: bs) =
      match (readDigits count).run bs with
      | (.ok high, rest) => (.ok (b.toNat % 128 + 128 * high), rest)
      | (.error e, rest) => (.error e, rest) := by
  rw [readDigits, Reader.run_bind_of_ok (Reader.run_byte_cons b bs), if_neg (by omega),
    Reader.run_bind]
  rcases (readDigits count).run bs with ⟨_ | high, rest⟩ <;> rfl

theorem run_readDigits_digits (count : Nat) :
    ∀ (n : Nat) (rest : Bytes), n < Nat.pow 128 (count + 1) →
    (readDigits (count + 1)).run (digits n ++ rest) = (.ok n, rest) := by
  induction count with
  | zero =>
    intro n rest h
    have hn : n < 128 := by simpa using h
    have hb : (UInt8.ofNat n).toNat = n := Bytes.toNat_ofNat_of_lt (by omega)
    rw [digits_of_lt hn, List.singleton_append, run_readDigits_cons_lt 0 rest (by omega), hb]
  | succ count ih =>
    intro n rest h
    by_cases hn : n < 128
    · have hb : (UInt8.ofNat n).toNat = n := Bytes.toNat_ofNat_of_lt (by omega)
      rw [digits_of_lt hn, List.singleton_append, run_readDigits_cons_lt _ rest (by omega), hb]
    · have hb : (UInt8.ofNat (n % 128 + 128)).toNat = n % 128 + 128 :=
        Bytes.toNat_ofNat_of_lt (by omega)
      have hdiv : n / 128 < Nat.pow 128 (count + 1) := by
        rw [Nat.div_lt_iff_lt_mul (by omega)]
        simpa [Nat.pow_succ] using h
      rw [digits_of_le (by omega), List.cons_append, run_readDigits_cons_ge _ _ (by omega),
        ih (n / 128) rest hdiv, hb]
      simp only [Prod.mk.injEq, Except.ok.injEq, and_true]
      omega

/-- The shortest varint of a value reads back, whatever follows it. -/
@[simp] theorem run_read_encode (v : UInt64) (rest : Bytes) :
    read.run (encode v ++ rest) = (.ok v, rest) := by
  have hv : v.toNat < Nat.pow 128 10 := Nat.lt_trans v.toNat_lt (by decide)
  have h : (readDigits maxLength).run (encode v ++ rest) = (.ok v.toNat, rest) :=
    run_readDigits_digits 9 v.toNat rest hv
  rw [read, Reader.run_bind_of_ok h, Reader.run_pure, UInt64.ofNat_toNat]

theorem consumes_readDigits (count : Nat) : (readDigits count).Consumes := by
  cases count with
  | zero => exact Reader.consumes_fail _
  | succ count => exact Reader.consumes_byte.bind _

theorem consumes_read : read.Consumes :=
  (consumes_readDigits maxLength).bind _

end Varint
end WireFormat
