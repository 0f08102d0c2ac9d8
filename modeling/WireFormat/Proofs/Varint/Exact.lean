/-
# What a varint is, byte by byte

A varint ends at its first byte below 128, and only the next ten bytes are looked at.
So where it ends says all there is to say about reading it: with the end at `i`, its
value is made of the seven low bits of the bytes up to `i`, those of byte `j` at place
`7 * j`, as far as they fit into sixty-four bits, and `i + 1` bytes are taken. If none
of the next ten bytes ends it, it is cut off by the end of the buffer or it is too
long, and all bytes looked at are taken.

What is written for a value is one chunk of as many bytes as were counted. It reads as
the value, whatever follows it, and no reading of that value takes fewer bytes.

Key definitions: `Cursor.forward`, `Varint.EndsWithin`, `Varint.number`.
Key theorems: `Writer.write_varint`, `Varint.exists_endsWithin_or`,
`Varint.run_readDigits_of_endsWithin`, `Varint.run_readDigits_of_goes_on`,
`Varint.exists_ok_iff`, `Varint.position_add_length_le`.
-/
import Mathlib.Algebra.BigOperators.Ring.Finset
import WireFormat.Proofs.Cursor.Indexed
import WireFormat.Proofs.Varint.Words
import WireFormat.Proofs.Writer.History

namespace WireFormat

theorem Writer.write_varint (w : Writer) (v : UInt64) :
    w.write (.varint v) =
      if Varint.length v ≤ w.free.length then (.ok (), w.advance (Varint.encode v))
      else (.error (.invalidArgument (.bufferTooSmall (Varint.length v) w.free.length)), w) := by
  show w.putAll [Varint.encode v] = _
  rw [putAll, ← Varint.length_encode]
  by_cases hle : (Varint.encode v).length ≤ w.free.length
  · rw [put_of_le hle, if_pos hle]
    rfl
  · rw [put_of_lt (by omega), if_neg hle]

namespace Cursor

variable {α : Type}

/-- The cursor after the next `n` bytes. -/
def forward (c : Cursor) (n : Nat) : Cursor :=
  ⟨c.consumed ++ c.unread.take n, c.unread.drop n⟩

theorem position_forward (c : Cursor) (n : Nat) :
    (c.forward n).position = c.position + min n c.remaining := by
  simp [forward, position, remaining]

theorem run_eq_forward {c : Cursor} {r : Reader α} {x : Except Error α} {n : Nat}
    (h : r.run c.unread = (x, c.unread.drop n)) : c.run r = (x, c.forward n) :=
  run_of_append (List.take_append_drop n c.unread).symm h

end Cursor

namespace Varint

/-! ### Where a number ends -/

/-- The first byte below 128 stands at `i`, among the next `count`. -/
def EndsWithin (count : Nat) (bs : Bytes) (i : Nat) : Prop :=
  i < count ∧ i < bs.length ∧ (bs.getD i 0).toNat < 128 ∧ ∀ j < i, 128 ≤ (bs.getD j 0).toNat

instance (count : Nat) (bs : Bytes) (i : Nat) : Decidable (EndsWithin count bs i) :=
  inferInstanceAs (Decidable (_ ∧ _))

theorem endsWithin_cons_zero {count : Nat} {b : UInt8} {bs : Bytes} :
    EndsWithin (count + 1) (b :: bs) 0 ↔ b.toNat < 128 := by
  simp [EndsWithin]

theorem endsWithin_cons_succ {count i : Nat} {b : UInt8} {bs : Bytes} :
    EndsWithin (count + 1) (b :: bs) (i + 1) ↔ 128 ≤ b.toNat ∧ EndsWithin count bs i := by
  simp only [EndsWithin, Nat.add_lt_add_iff_right, List.length_cons, List.getD_cons_succ,
    Nat.forall_lt_succ_left, List.getD_cons_zero]
  tauto

/-- Of the next bytes one is the first that does not go on, or all of them go on. -/
theorem exists_endsWithin_or (count : Nat) (bs : Bytes) :
    (∃ i, EndsWithin count bs i) ∨ ∀ b ∈ bs.take count, 128 ≤ b.toNat := by
  induction count generalizing bs with
  | zero => exact .inr (by simp)
  | succ count ih =>
    cases bs with
    | nil => exact .inr (by simp)
    | cons b bs =>
      by_cases hb : b.toNat < 128
      · exact .inl ⟨0, endsWithin_cons_zero.2 hb⟩
      · have hmore : 128 ≤ b.toNat := by omega
        rcases ih bs with ⟨i, hi⟩ | hall
        · exact .inl ⟨i + 1, endsWithin_cons_succ.2 ⟨hmore, hi⟩⟩
        · exact .inr (by simpa [hmore] using hall)

theorem EndsWithin.exists_mem {count i : Nat} {bs : Bytes} (h : EndsWithin count bs i) :
    ∃ b ∈ bs.take count, b.toNat < 128 := by
  obtain ⟨hcount, hlen, hlast, -⟩ := h
  rw [List.getD_eq_getElem bs 0 hlen] at hlast
  exact ⟨bs[i], List.mem_take_iff_getElem.2 ⟨i, by omega, rfl⟩, hlast⟩

/-! ### The number up to there -/

/-- The number in the first `count` bytes: seven bits of each, those of byte `j` at
place `7 * j`. -/
def number (bs : Bytes) (count : Nat) : Nat :=
  ∑ j ∈ Finset.range count, (bs.getD j 0).toNat % 128 * 2 ^ (7 * j)

theorem number_cons (b : UInt8) (bs : Bytes) (count : Nat) :
    number (b :: bs) (count + 1) = b.toNat % 128 + 128 * number bs count := by
  have hplace : ∀ j, 2 ^ (7 * (j + 1)) = 128 * 2 ^ (7 * j) := fun j => by
    rw [Nat.mul_add, Nat.pow_add, Nat.mul_comm]
  unfold number
  rw [Finset.sum_range_succ', Nat.add_comm, Finset.mul_sum]
  refine congrArg₂ (· + ·) ?_ (Finset.sum_congr rfl fun j _ => ?_)
  · rw [List.getD_cons_zero, Nat.mul_zero, Nat.pow_zero, Nat.mul_one]
  · rw [hplace, List.getD_cons_succ, Nat.mul_left_comm]

/-- A number that ends within the bytes it may have is read up to its end. -/
theorem run_readDigits_of_endsWithin {count i : Nat} {bs : Bytes} (h : EndsWithin count bs i) :
    (readDigits count).run bs = (.ok (number bs (i + 1)), bs.drop (i + 1)) := by
  induction count generalizing bs i with
  | zero => exact absurd h.1 (Nat.not_lt_zero i)
  | succ count ih =>
    cases bs with
    | nil => exact absurd h.2.1 (Nat.not_lt_zero i)
    | cons b bs =>
      cases i with
      | zero =>
        have hb := endsWithin_cons_zero.1 h
        have hnumber : number (b :: bs) 1 = b.toNat := by
          simp [number, Nat.mod_eq_of_lt hb]
        rw [run_readDigits_cons_lt count bs hb, hnumber]
        rfl
      | succ i =>
        obtain ⟨hb, hi⟩ := endsWithin_cons_succ.1 h
        rw [run_readDigits_cons_ge count bs hb, ih hi, number_cons, List.drop_succ_cons]

/-- A number that does not end within the bytes it may have is cut off or too long, and
all of these bytes are taken. -/
theorem run_readDigits_of_goes_on {count : Nat} {bs : Bytes}
    (h : ∀ b ∈ bs.take count, 128 ≤ b.toNat) :
    (readDigits count).run bs =
      (if bs.length < count then .error (.truncated 1 0)
        else .error (.malformed (.varintTooLong maxLength)), bs.drop count) := by
  induction count generalizing bs with
  | zero => rfl
  | succ count ih =>
    cases bs with
    | nil => rfl
    | cons b bs =>
      rw [List.take_succ_cons, List.forall_mem_cons] at h
      rw [run_readDigits_cons_ge count bs h.1, ih h.2, List.drop_succ_cons, List.length_cons]
      by_cases hlen : bs.length < count
      · rw [if_pos hlen, if_pos (by omega)]
      · rw [if_neg hlen, if_neg (by omega)]

/-! ### Reading a varint from any place in a buffer -/

variable {c : Cursor} {i : Nat}

theorem run_of_endsWithin (h : EndsWithin maxLength c.unread i) :
    c.run read = (.ok (UInt64.ofNat (number c.unread (i + 1))), c.forward (i + 1)) := by
  apply Cursor.run_eq_forward
  rw [read, Reader.run_bind_of_ok (run_readDigits_of_endsWithin h)]
  rfl

theorem run_of_goes_on (h : ∀ b ∈ c.unread.take maxLength, 128 ≤ b.toNat) :
    c.run read =
      (if c.remaining < maxLength then .error (.truncated 1 0)
        else .error (.malformed (.varintTooLong maxLength)), c.forward maxLength) := by
  apply Cursor.run_eq_forward
  have hrun := run_readDigits_of_goes_on h
  unfold Cursor.remaining
  by_cases hlen : c.unread.length < maxLength
  · rw [if_pos hlen] at hrun ⊢
    rw [read, Reader.run_bind_of_error hrun]
  · rw [if_neg hlen] at hrun ⊢
    rw [read, Reader.run_bind_of_error hrun]

theorem exists_ok_iff :
    (∃ v, (c.run read).1 = .ok v) ↔ ∃ b ∈ c.unread.take maxLength, b.toNat < 128 := by
  rcases exists_endsWithin_or maxLength c.unread with ⟨i, hi⟩ | hall
  · rw [run_of_endsWithin hi]
    exact iff_of_true ⟨_, rfl⟩ hi.exists_mem
  · have hnone : ¬ ∃ b ∈ c.unread.take maxLength, b.toNat < 128 := by
      rintro ⟨b, hmem, hb⟩
      exact absurd (hall b hmem) (by omega)
    refine iff_of_false ?_ hnone
    rintro ⟨v, hv⟩
    rw [run_of_goes_on hall] at hv
    split at hv <;> cases hv

/-- No reading of a value takes fewer bytes than are written for it. -/
theorem position_add_length_le {v : UInt64} (h : (c.run read).1 = .ok v) :
    c.position + length v ≤ (c.run read).2.position := by
  obtain ⟨x, used, rest, hunread, hrun, hc⟩ := c.exists_used read
  rw [hc] at h ⊢
  obtain rfl : x = .ok v := h
  obtain ⟨used', hused', hvarint⟩ := Grammar.run_varint_eq_ok_iff.1 hrun
  obtain rfl : used' = used := List.append_cancel_right (hused'.symm.trans hunread)
  have hlen := hvarint.length_le (Nat.le_refl v.toNat)
  show c.consumed.length + length v ≤ (c.consumed ++ used').length
  rw [List.length_append]
  omega

/-- **A varint is exact, and what is written is the shortest.** Bytes read as the number
they hold modulo `2 ^ 64`, up to the first of the next ten that is below 128, and no
value is read from fewer bytes than are written for it. -/
theorem exact_and_shortest (v : UInt64) (w : Writer) (consumed rest : Bytes) (c : Cursor) :
    let run := c.run read
    (1 ≤ length v ∧ length v ≤ 10 ∧ length v = wordLength v ∧
      (encode v).length = length v ∧ scratch v = some (encode v)) ∧
    w.write (.varint v) =
      (if length v ≤ w.free.length then (.ok (), w.advance (encode v))
      else (.error (.invalidArgument (.bufferTooSmall (length v) w.free.length)), w)) ∧
    (Cursor.mk consumed (encode v ++ rest)).run read = (.ok v, ⟨consumed ++ encode v, rest⟩) ∧
    (run.1 = .ok v → c.position + length v ≤ run.2.position) ∧
    run = c.run (readShifted 10 0 0) ∧
    ((∃ u, run.1 = .ok u) ↔ ∃ b ∈ c.unread.take 10, b.toNat < 128) ∧
    (∀ i, EndsWithin 10 c.unread i →
      (∃ u, run = (.ok u, c.forward (i + 1)) ∧
        u.toNat = number c.unread (i + 1) % 2 ^ 64) ∧
      run.2.position = c.position + (i + 1)) ∧
    ((¬ ∃ b ∈ c.unread.take 10, b.toNat < 128) →
      (c.remaining < 10 →
        run.1 = .error (.truncated 1 0) ∧ run.2.position = c.bytes.length) ∧
      (10 ≤ c.remaining →
        run.1 = .error (.malformed (.varintTooLong 10)) ∧ run.2.position = c.position + 10)) := by
  intro run
  have hbytes : c.bytes.length = c.position + c.remaining := List.length_append
  refine ⟨⟨length_pos v, length_le_maxLength v, (wordLength_eq v).symm, length_encode v,
    scratch_eq v⟩, w.write_varint v, Cursor.run_of_append rfl (run_read_encode v rest),
    position_add_length_le, congrArg c.run readShifted_eq.symm, exists_ok_iff, ?_, ?_⟩
  · intro i hi
    have hrun : run = _ := run_of_endsWithin hi
    have hleft : i + 1 ≤ c.remaining := hi.2.1
    refine ⟨⟨_, hrun, UInt64.toNat_ofNat'⟩, ?_⟩
    calc run.2.position
        = (c.forward (i + 1)).position := by rw [hrun]
      _ = c.position + (i + 1) := by rw [c.position_forward, Nat.min_eq_left hleft]
  · intro hnone
    have hall : ∀ b ∈ c.unread.take maxLength, 128 ≤ b.toNat := fun b hmem =>
      Nat.le_of_not_lt fun hb => hnone ⟨b, hmem, hb⟩
    have hrun : run = _ := run_of_goes_on hall
    have hposition : run.2.position = c.position + min 10 c.remaining := by
      rw [hrun]
      exact c.position_forward 10
    rw [hbytes, hposition, hrun]
    refine ⟨fun hshort => ⟨if_pos hshort, ?_⟩, fun hlong => ⟨if_neg (Nat.not_lt.2 hlong), ?_⟩⟩
    · rw [Nat.min_eq_right (Nat.le_of_lt hshort)]
    · rw [Nat.min_eq_left hlong]

/-- Ten bytes hold seventy bits, of which sixty-four are kept: the largest value, which
is also written in ten bytes. Two bytes that go on are cut off, and eleven are too many. -/
theorem exact_and_shortest_overflowing :
    let c : Cursor := ⟨[0x08], List.replicate 9 0xFF ++ [0x7F, 0x05]⟩
    let short : Cursor := ⟨[0x08], [0x80, 0x80]⟩
    let long : Cursor := ⟨[0x08], List.replicate 11 0x80⟩
    EndsWithin 10 c.unread 9 ∧
      c.run read = (.ok 18446744073709551615, c.forward 10) ∧
      c.position + length 18446744073709551615 ≤ (c.run read).2.position ∧
      (short.run read).1 = .error (.truncated 1 0) ∧ (short.run read).2.position = 3 ∧
      (long.run read).1 = .error (.malformed (.varintTooLong 10)) ∧
      (long.run read).2.position = 11 := by
  intro c short long
  have hends : EndsWithin 10 c.unread 9 := by decide
  obtain ⟨-, -, -, hshortest, -, -, hread, -⟩ :=
    exact_and_shortest 18446744073709551615 (Writer.ofBuffer []) [] [] c
  obtain ⟨-, -, -, -, -, -, -, hshort⟩ := exact_and_shortest 0 (Writer.ofBuffer []) [] [] short
  obtain ⟨-, -, -, -, -, -, -, hlong⟩ := exact_and_shortest 0 (Writer.ofBuffer []) [] [] long
  obtain ⟨⟨u, hrun, hu⟩, -⟩ := hread 9 hends
  have hvalue : number c.unread 10 % 2 ^ 64 = 18446744073709551615 := by decide +kernel
  obtain rfl : u = 18446744073709551615 := UInt64.toNat_inj.1 (hu.trans hvalue)
  obtain ⟨hcut, hend⟩ := (hshort (by decide)).1 (by decide)
  obtain ⟨htoo, hten⟩ := (hlong (by decide)).2 (by decide)
  exact ⟨hends, hrun, hshortest (congrArg Prod.fst hrun), hcut, hend, htoo, hten⟩

end Varint
end WireFormat
