/-
# Readers

A reader takes bytes off the front of a byte string. It gives a value or an
error, and in both cases the bytes it left: what was taken before a failure
stays taken. What is left is always an end piece of what was there, and this is
part of the type, so that a loop whose rounds each take a byte is seen to end.

Key definitions: `Reader`, `Reader.byte`, `Reader.take`, `Reader.finish`,
`Reader.captured`, `Reader.Consumes`, `Reader.untilSome`.
Key theorems: `Reader.run_bind`, `Reader.run_take`, `Reader.run_captured_eq_ok_iff`,
`Reader.Consumes.bind`, `Reader.run_untilSome`.
-/
import WireFormat.Error

namespace WireFormat

/-- A computation that takes bytes off the front of its input. -/
@[ext] structure Reader (α : Type) where
  /-- The value or the error, and the bytes left. -/
  run : Bytes → Except Error α × Bytes
  /-- What is left is an end piece of the input. -/
  rest_suffix (bs : Bytes) : (run bs).2 <:+ bs

namespace Reader

variable {α β : Type}

theorem rest_length_le (r : Reader α) (bs : Bytes) : (r.run bs).2.length ≤ bs.length :=
  (r.rest_suffix bs).length_le

/-- The value `a`, without taking anything. -/
protected def pure (a : α) : Reader α :=
  ⟨fun bs => (.ok a, bs), fun _ => List.suffix_rfl⟩

/-- Runs `r`, then what `f` makes of its value on the bytes it left. -/
protected def bind (r : Reader α) (f : α → Reader β) : Reader β where
  run bs :=
    match r.run bs with
    | (.ok a, rest) => (f a).run rest
    | (.error e, rest) => (.error e, rest)
  rest_suffix bs := by
    have hr := r.rest_suffix bs
    split
    · next a rest h => exact ((f a).rest_suffix rest).trans (by simpa [h] using hr)
    · next e rest h => simpa [h] using hr

instance : Monad Reader where
  pure := Reader.pure
  bind := Reader.bind

@[simp] theorem run_pure (a : α) (bs : Bytes) : (pure a : Reader α).run bs = (.ok a, bs) := rfl

theorem run_bind (r : Reader α) (f : α → Reader β) (bs : Bytes) :
    (r >>= f).run bs =
      match r.run bs with
      | (.ok a, rest) => (f a).run rest
      | (.error e, rest) => (.error e, rest) := rfl

theorem run_bind_of_ok {r : Reader α} {f : α → Reader β} {bs rest : Bytes} {a : α}
    (h : r.run bs = (.ok a, rest)) : (r >>= f).run bs = (f a).run rest := by
  rw [run_bind, h]

theorem run_bind_of_error {r : Reader α} {f : α → Reader β} {bs rest : Bytes} {e : Error}
    (h : r.run bs = (.error e, rest)) : (r >>= f).run bs = (.error e, rest) := by
  rw [run_bind, h]

theorem map_id_eq (r : Reader α) : id <$> r = r := by
  ext bs : 2
  show (Reader.bind r fun a => Reader.pure a).run bs = r.run bs
  simp only [Reader.bind, Reader.pure]
  split <;> simp_all

theorem bind_bind {γ : Type} (r : Reader α) (f : α → Reader β) (g : β → Reader γ) :
    r >>= f >>= g = r >>= fun a => f a >>= g := by
  ext bs : 2
  simp only [run_bind]
  rcases r.run bs with ⟨_ | a, rest⟩ <;> rfl

instance : LawfulMonad Reader :=
  LawfulMonad.mk' Reader map_id_eq (fun _ _ => rfl) bind_bind

/-! ### Primitive readers -/

/-- Fails with `e`, without taking anything. -/
def fail (e : Error) : Reader α :=
  ⟨fun bs => (.error e, bs), fun _ => List.suffix_rfl⟩

/-- The value or the error of `x`, without taking anything. -/
def ofExcept : Except Error α → Reader α
  | .ok a => pure a
  | .error e => fail e

/-- The next byte. -/
def byte : Reader UInt8 where
  run
    | [] => (.error (.truncated 1 0), [])
    | b :: bs => (.ok b, bs)
  rest_suffix
    | [] => List.suffix_rfl
    | b :: bs => List.suffix_cons b bs

/-- The next `n` bytes; if fewer are left, none of them is taken. -/
def take (n : Nat) : Reader Bytes where
  run bs :=
    if n ≤ bs.length then (.ok (bs.take n), bs.drop n)
    else (.error (.truncated n bs.length), bs)
  rest_suffix bs := by
    split
    · exact List.drop_suffix n bs
    · exact List.suffix_rfl

/-- Checks that nothing is left. -/
def finish : Reader Unit where
  run bs :=
    if bs = [] then (.ok (), bs) else (.error (.malformed (.unconsumed bs.length)), bs)
  rest_suffix bs := by split <;> exact List.suffix_rfl

/-- The value of `r` together with the bytes that `r` took. -/
def captured (r : Reader α) : Reader (α × Bytes) where
  run bs :=
    match r.run bs with
    | (.ok a, rest) => (.ok (a, bs.take (bs.length - rest.length)), rest)
    | (.error e, rest) => (.error e, rest)
  rest_suffix bs := by
    have hr := r.rest_suffix bs
    split <;> next h => simpa [h] using hr

@[simp] theorem run_fail (e : Error) (bs : Bytes) : (fail e : Reader α).run bs = (.error e, bs) :=
  rfl

@[simp] theorem run_ofExcept (x : Except Error α) (bs : Bytes) : (ofExcept x).run bs = (x, bs) := by
  cases x <;> rfl

@[simp] theorem run_byte_cons (b : UInt8) (bs : Bytes) : byte.run (b :: bs) = (.ok b, bs) := rfl

theorem run_take (n : Nat) (bs : Bytes) :
    (take n).run bs =
      if n ≤ bs.length then (.ok (bs.take n), bs.drop n)
      else (.error (.truncated n bs.length), bs) := rfl

@[simp] theorem run_take_append (bs rest : Bytes) :
    (take bs.length).run (bs ++ rest) = (.ok bs, rest) := by
  simp [run_take]

@[simp] theorem run_finish_nil : finish.run [] = (.ok (), []) := rfl

theorem run_finish_cons (b : UInt8) (bs : Bytes) :
    finish.run (b :: bs) = (.error (.malformed (.unconsumed (b :: bs).length)), b :: bs) := rfl

theorem take_sub_append_of_suffix {rest bs : Bytes} (h : rest <:+ bs) :
    bs.take (bs.length - rest.length) ++ rest = bs := by
  obtain ⟨used, rfl⟩ := h
  simp

/-- A reader that left `rest` of `used ++ rest` took `used`. -/
theorem run_captured_of_ok {r : Reader α} {used rest : Bytes} {a : α}
    (h : r.run (used ++ rest) = (.ok a, rest)) :
    r.captured.run (used ++ rest) = (.ok (a, used), rest) := by
  simp [captured, h]

/-- What a reader took and what it left are together what it was given. -/
theorem run_captured_eq_ok_iff {r : Reader α} {bs taken rest : Bytes} {a : α} :
    r.captured.run bs = (.ok (a, taken), rest) ↔
      r.run bs = (.ok a, rest) ∧ bs = taken ++ rest := by
  constructor
  · intro h
    simp only [captured] at h
    split at h
    · next hr =>
      cases h
      have hs := r.rest_suffix bs
      rw [hr] at hs
      exact ⟨hr, (take_sub_append_of_suffix hs).symm⟩
    · cases h
  · rintro ⟨h, rfl⟩
    exact run_captured_of_ok h

/-! ### Loops -/

/-- A reader that takes at least one byte whenever it succeeds. -/
def Consumes (r : Reader α) : Prop :=
  ∀ bs a rest, r.run bs = (.ok a, rest) → rest.length < bs.length

theorem consumes_byte : byte.Consumes := by
  intro bs a rest h
  cases bs <;> cases h
  exact Nat.lt_succ_self _

theorem consumes_fail (e : Error) : (fail e : Reader α).Consumes := by
  intro bs a rest h
  cases h

theorem consumes_take {n : Nat} (hn : 0 < n) : (take n).Consumes := by
  intro bs a rest h
  rw [run_take] at h
  split at h
  · cases h
    simp only [List.length_drop]
    omega
  · cases h

/-- What follows a reader that takes a byte cannot put it back. -/
theorem Consumes.bind {r : Reader α} (h : r.Consumes) (f : α → Reader β) : (r >>= f).Consumes := by
  intro bs b rest hb
  rw [run_bind] at hb
  split at hb
  · next a mid hr =>
    have hmid := h bs a mid hr
    have hle := (f a).rest_length_le mid
    rw [hb] at hle
    exact Nat.lt_of_le_of_lt hle hmid
  · cases hb

theorem Consumes.captured {r : Reader α} (h : r.Consumes) : r.captured.Consumes := by
  intro bs a rest hc
  simp only [Reader.captured] at hc
  split at hc
  · next hr =>
    cases hc
    exact h bs _ _ hr
  · cases hc

/-- Rounds of `round` on the bytes until one gives a value. -/
def runUntilSome (round : Reader (Option α)) (h : round.Consumes) (bs : Bytes) :
    Except Error α × Bytes :=
  match hr : round.run bs with
  | (.ok (some a), rest) => (.ok a, rest)
  | (.ok none, rest) =>
    have : rest.length < bs.length := h bs none rest hr
    runUntilSome round h rest
  | (.error e, rest) => (.error e, rest)
termination_by bs.length

theorem runUntilSome_suffix (round : Reader (Option α)) (h : round.Consumes) (bs : Bytes) :
    (runUntilSome round h bs).2 <:+ bs := by
  fun_induction runUntilSome round h bs with
  | case1 bs a rest hr => simpa [hr] using round.rest_suffix bs
  | case2 bs rest hr _ ih => exact ih.trans (by simpa [hr] using round.rest_suffix bs)
  | case3 bs e rest hr => simpa [hr] using round.rest_suffix bs

/-- Repeats `round`, which takes at least one byte, until it gives a value. -/
def untilSome (round : Reader (Option α)) (h : round.Consumes) : Reader α :=
  ⟨runUntilSome round h, runUntilSome_suffix round h⟩

theorem run_untilSome (round : Reader (Option α)) (h : round.Consumes) (bs : Bytes) :
    (untilSome round h).run bs =
      match round.run bs with
      | (.ok (some a), rest) => (.ok a, rest)
      | (.ok none, rest) => (untilSome round h).run rest
      | (.error e, rest) => (.error e, rest) := by
  show runUntilSome round h bs = _
  rw [runUntilSome]
  split <;> simp_all [untilSome]

end Reader
end WireFormat
