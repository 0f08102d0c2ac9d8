/-
# Varints on machine words

A varint can also be written and read with the operations of a machine word. The
number of bytes is counted from the leading zeros. The bytes are put into an array of
ten, the lowest seven bits of the value at a time, while the value is shifted down.
Reading shifts the seven bits of each byte to their place and joins them to the value
so far, which drops what goes beyond the word.

Where this could go wrong it is looked at: writing past the end of the array gives
nothing. It never happens, since a word has no more than ten digits; the bytes in the
array are the shortest varint, and their number is the one counted. Joining the bits is
adding them, because the value so far is below the place where they go, and so reading
by words is reading digits.

Key definitions: `Varint.bitCount`, `Varint.wordLength`, `Varint.scratchFrom`,
`Varint.scratch`, `Varint.readShifted`.
Key theorems: `Varint.bitCount_eq`, `Varint.wordLength_eq`, `Varint.scratch_eq`,
`Varint.or_shiftLeft_eq`, `Varint.readShifted_eq`.
-/
import Mathlib.Data.Nat.Bitwise
import WireFormat.Proofs.Varint

namespace WireFormat
namespace Varint

/-! ### The number of bytes -/

/-- The number of bits up to the highest that is set; zero counts as one bit. -/
def bitCount (v : UInt64) : Nat := 64 - (v ||| 1).toBitVec.clz.toNat

/-- The number of bytes for all bits at seven bits a byte, rounded up. -/
def wordLength (v : UInt64) : Nat := (bitCount v + 6) / 7

theorem log2_or_one (n : Nat) : (n ||| 1).log2 = n.log2 := by
  have hhalf : (n ||| 1) / 2 = n / 2 := by simp [Nat.or_div_two]
  rw [Nat.log2_def, Nat.log2_def n, hhalf]
  by_cases hn : 2 ≤ n
  · have hor : 2 ≤ n ||| 1 := hn.trans Nat.left_le_or
    rw [if_pos hor, if_pos hn]
  · obtain rfl | rfl : n = 0 ∨ n = 1 := by omega
    · rfl
    · rfl

theorem bitCount_eq (v : UInt64) : bitCount v = v.toNat.log2 + 1 := by
  have hpos : v.toNat ||| 1 ≠ 0 := Nat.ne_of_gt Nat.right_le_or
  have hne : (v ||| 1).toBitVec ≠ 0#64 := fun h => hpos (congrArg BitVec.toNat h)
  have hclz : (v ||| 1).toBitVec.clz.toNat < 64 :=
    BitVec.lt_def.1 (BitVec.clz_lt_iff_ne_zero.2 hne)
  -- the highest set bit stands right below the leading zeros
  have hlow : 2 ^ (63 - (v ||| 1).toBitVec.clz.toNat) ≤ v.toNat ||| 1 :=
    BitVec.two_pow_sub_clz_le_toNat_of_ne_zero (by decide) hne
  have hhigh : v.toNat ||| 1 < 2 ^ (64 - (v ||| 1).toBitVec.clz.toNat) :=
    BitVec.toNat_lt_two_pow_sub_clz (x := (v ||| 1).toBitVec)
  have hsucc : 64 - (v ||| 1).toBitVec.clz.toNat = 63 - (v ||| 1).toBitVec.clz.toNat + 1 := by
    omega
  have hlog : (v.toNat ||| 1).log2 = 63 - (v ||| 1).toBitVec.clz.toNat :=
    (Nat.log2_eq_iff hpos).2 ⟨hlow, hsucc ▸ hhigh⟩
  rw [log2_or_one] at hlog
  rw [bitCount, hlog, hsucc]

/-- The bytes counted from the leading zeros are those of the shortest varint. -/
theorem wordLength_eq (v : UInt64) : wordLength v = length v := by
  unfold wordLength length
  rw [bitCount_eq]
  omega

/-! ### The bytes in an array -/

/-- Puts the digits of `v` into an array from `count` on, and gives the array up to
the last of them; nothing if a digit would go beyond the array. -/
def scratchFrom (array : Bytes) (count : Nat) (v : UInt64) : Option Bytes :=
  if count < array.length then
    if v < 0x80 then
      some ((array.set count v.toUInt8).take (count + 1))
    else
      scratchFrom (array.set count (v.toUInt8 ||| 0x80)) (count + 1) (v >>> 7)
  else
    none
termination_by array.length - count

/-- The digits of `v`, put into an array of as many bytes as a varint can have. -/
def scratch (v : UInt64) : Option Bytes := scratchFrom (List.replicate maxLength 0) 0 v

theorem toNat_shiftRight_seven (v : UInt64) : (v >>> 7).toNat = v.toNat / 128 := by
  rw [UInt64.toNat_shiftRight]
  exact Nat.shiftRight_eq_div_pow v.toNat 7

theorem toNat_or_high (b : UInt8) : (b ||| 0x80).toNat = b.toNat % 128 + 128 := by
  have hlow : (b.toNat ||| 128) % 2 ^ 7 = b.toNat % 128 := by
    rw [Nat.or_mod_two_pow]
    exact Nat.or_zero _
  have hhigh : (b.toNat ||| 128) / 2 ^ 7 = 1 := by
    have hb := b.toNat_lt
    rw [Nat.or_div_two_pow]
    obtain h | h : b.toNat / 2 ^ 7 = 0 ∨ b.toNat / 2 ^ 7 = 1 := by omega
    · rw [h]
      rfl
    · rw [h]
      rfl
  have hsplit := Nat.div_add_mod (b.toNat ||| 128) (2 ^ 7)
  rw [hlow, hhigh] at hsplit
  show b.toNat ||| 128 = _
  omega

theorem toUInt8_or_high (v : UInt64) : v.toUInt8 ||| 0x80 = UInt8.ofNat (v.toNat % 128 + 128) := by
  apply UInt8.toNat_inj.1
  rw [toNat_or_high, UInt64.toNat_toUInt8, Bytes.toNat_ofNat_of_lt (by omega)]
  omega

theorem take_succ_set {array : Bytes} {count : Nat} (h : count < array.length) (b : UInt8) :
    (array.set count b).take (count + 1) = array.take count ++ [b] := by
  have hlen : (array.take count).length = count := List.length_take_of_le (Nat.le_of_lt h)
  rw [List.set_eq_take_append_cons_drop, if_pos h]
  simp [List.take_append, List.take_take, hlen]

/-- If there is space for all digits, they stand behind what the array held before
`count`. -/
theorem scratchFrom_eq {array : Bytes} {count : Nat} {v : UInt64}
    (h : count + (digits v.toNat).length ≤ array.length) :
    scratchFrom array count v = some (array.take count ++ digits v.toNat) := by
  have hlt : count < array.length := by
    have := List.length_pos_iff.2 (digits_ne_nil v.toNat)
    omega
  rw [scratchFrom, if_pos hlt]
  by_cases hv : v.toNat < 128
  · have hword : v < 0x80 := UInt64.lt_iff_toNat_lt.2 hv
    have hbyte : v.toUInt8 = UInt8.ofNat v.toNat := rfl
    rw [if_pos hword, take_succ_set hlt, digits_of_lt hv, hbyte]
  · have hword : ¬ v < 0x80 := fun hlt => hv (UInt64.lt_iff_toNat_lt.1 hlt)
    have hdigits : digits v.toNat =
        UInt8.ofNat (v.toNat % 128 + 128) :: digits (v >>> 7).toNat := by
      rw [digits_of_le (by omega), toNat_shiftRight_seven]
    rw [hdigits, List.length_cons] at h
    have hspace : count + 1 + (digits (v >>> 7).toNat).length ≤
        (array.set count (v.toUInt8 ||| 0x80)).length := by
      rw [List.length_set]
      omega
    -- the digit just put down now stands before `count + 1`, ahead of those still to come
    rw [if_neg hword, scratchFrom_eq hspace, take_succ_set hlt, toUInt8_or_high, hdigits,
      List.append_assoc]
    rfl
termination_by v.toNat
decreasing_by
  rw [toNat_shiftRight_seven]
  omega

/-- The array has space for every digit, and they are the shortest varint. -/
theorem scratch_eq (v : UInt64) : scratch v = some (encode v) := by
  have hspace : 0 + (digits v.toNat).length ≤ (List.replicate maxLength (0 : UInt8)).length := by
    have hlen : (digits v.toNat).length = length v := length_encode v
    rw [List.length_replicate, Nat.zero_add, hlen]
    exact length_le_maxLength v
  exact scratchFrom_eq hspace

/-! ### Joining the bits of the bytes -/

/-- A number of at most `count` more bytes; `value` holds the bits of the `i` bytes
before them. -/
def readShifted : (count i : Nat) → (value : UInt64) → Reader UInt64
  | 0, _, _ => Reader.fail (.malformed (.varintTooLong maxLength))
  | count + 1, i, value => do
    let b ← Reader.byte
    let value := value ||| (b &&& 0x7F).toUInt64 <<< UInt64.ofNat (7 * i)
    if b &&& 0x80 = 0 then return value else readShifted count (i + 1) value

theorem toNat_and_low (b : UInt8) : (b &&& 0x7F).toNat = b.toNat % 128 :=
  Nat.and_two_pow_sub_one_eq_mod b.toNat 7

theorem and_high_eq_zero_iff (b : UInt8) : b &&& 0x80 = 0 ↔ b.toNat < 128 := by
  have hb := b.toNat_lt
  have hbit : (b &&& 0x80).toNat = (b.toNat.testBit 7).toNat * 2 ^ 7 := Nat.and_two_pow b.toNat 7
  rw [← UInt8.toNat_inj, hbit, Nat.testBit_eq_decide_div_mod_eq]
  by_cases h : b.toNat < 128
  · have hbit7 : b.toNat / 128 % 2 = 0 := by omega
    simp [hbit7, h]
  · have hbit7 : b.toNat / 128 % 2 = 1 := by omega
    simp [hbit7, h]

/-- Bits that are joined above a number are added to it, as far as the word goes. -/
theorem or_shiftLeft_eq {n i : Nat} (hn : n < 2 ^ (7 * i)) (hi : i < maxLength) (b : UInt8) :
    UInt64.ofNat n ||| (b &&& 0x7F).toUInt64 <<< UInt64.ofNat (7 * i) =
      UInt64.ofNat (n + 2 ^ (7 * i) * (b.toNat % 128)) := by
  unfold maxLength at hi
  have hshift : (UInt64.ofNat (7 * i)).toNat % 64 = 7 * i := by
    rw [UInt64.toNat_ofNat']
    omega
  apply UInt64.toNat_inj.1
  calc (UInt64.ofNat n ||| (b &&& 0x7F).toUInt64 <<< UInt64.ofNat (7 * i)).toNat
      = n % 2 ^ 64 ||| (b.toNat % 128) <<< (7 * i) % 2 ^ 64 := by
        rw [UInt64.toNat_or, UInt64.toNat_shiftLeft, hshift, UInt8.toNat_toUInt64, toNat_and_low,
          UInt64.toNat_ofNat']
    -- the cut to a word comes last, so the tenth byte may go beyond it
    _ = (2 ^ (7 * i) * (b.toNat % 128) ||| n) % 2 ^ 64 := by
        rw [← Nat.or_mod_two_pow, Nat.shiftLeft_eq, Nat.mul_comm, Nat.lor_comm]
    _ = (n + 2 ^ (7 * i) * (b.toNat % 128)) % 2 ^ 64 := by
        rw [← Nat.two_pow_add_eq_or_of_lt hn, Nat.add_comm]
    _ = (UInt64.ofNat (n + 2 ^ (7 * i) * (b.toNat % 128))).toNat := (UInt64.toNat_ofNat' ..).symm

/-- Bytes that are joined to a value add the number they hold, at their place. -/
theorem readShifted_eq_map {count i n : Nat} (hcount : i + count ≤ maxLength)
    (hn : n < 2 ^ (7 * i)) :
    readShifted count i (UInt64.ofNat n) =
      (fun high => UInt64.ofNat (n + 2 ^ (7 * i) * high)) <$> readDigits count := by
  induction count generalizing i n with
  | zero => rfl
  | succ count ih =>
    have hplace : 2 ^ (7 * (i + 1)) = 2 ^ (7 * i) * 128 := Nat.pow_add 2 (7 * i) 7
    rw [readShifted, readDigits, map_bind]
    congr 1
    funext b
    have hstep := or_shiftLeft_eq hn (by omega) b
    by_cases hb : b.toNat < 128
    · have hmod : b.toNat % 128 = b.toNat := Nat.mod_eq_of_lt hb
      rw [if_pos ((and_high_eq_zero_iff b).2 hb), if_pos hb, hstep, hmod]
      rfl
    · have hnext : n + 2 ^ (7 * i) * (b.toNat % 128) < 2 ^ (7 * (i + 1)) := by
        have hdigit : b.toNat % 128 + 1 ≤ 128 := Nat.mod_lt _ (by decide)
        have := Nat.mul_le_mul_left (2 ^ (7 * i)) hdigit
        rw [Nat.mul_add] at this
        omega
      rw [if_neg fun h => hb ((and_high_eq_zero_iff b).1 h), if_neg hb, hstep,
        ih (by omega) hnext, hplace]
      simp only [map_eq_pure_bind, bind_assoc, pure_bind]
      congr 1
      funext high
      rw [Nat.mul_add, Nat.mul_assoc, Nat.add_assoc]

/-- Reading by words is reading digits. -/
theorem readShifted_eq : readShifted maxLength 0 0 = read := by
  have hplace : (fun n => UInt64.ofNat (0 + 2 ^ (7 * 0) * n)) = UInt64.ofNat := by
    funext n
    rw [Nat.zero_add, Nat.mul_zero, Nat.pow_zero, Nat.one_mul]
  calc readShifted maxLength 0 0
      = (fun n => UInt64.ofNat (0 + 2 ^ (7 * 0) * n)) <$> readDigits maxLength :=
        readShifted_eq_map (n := 0) (by decide) (by decide)
    _ = UInt64.ofNat <$> readDigits maxLength := by rw [hplace]
    _ = read := map_eq_pure_bind ..

end Varint
end WireFormat
