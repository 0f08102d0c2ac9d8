/-
# A buffer and a position

A cursor can also be kept as a buffer and a position in it. The bytes left are then
a difference, and bytes are taken as a slice, so every read rests on the position
being inside the buffer. Here this is said by readers that look: where a difference
would be below zero, a slice or an array not what it should be, or a loop would go
round without taking a byte, they give nothing at all, neither a value nor an error.

None of this ever happens. From every place in a buffer, a reader by position gives
the result of the reader of unread bytes and stops where that one stops. Taking bytes
is the one step that has to be checked; all other readers are put together from it,
and a loop is followed round by round.

Key definitions: `Ranged`, `Indexed`, `Indexed.take`, `Indexed.untilSome`, `Indexed.skip`,
`Indexed.Follows`.
Key theorems: `Cursor.run_bind`, `Indexed.follows_take`, `Indexed.Follows.bind`,
`Indexed.Follows.untilSome`, `Indexed.follows_skip`.
-/
import WireFormat.Cursor
import WireFormat.Skip

namespace WireFormat

variable {α β : Type}

/-- A loop is its first round, and then the same again if that gave no value. -/
theorem Reader.untilSome_eq_bind (r : Reader (Option α)) (hr : r.Consumes) :
    r.untilSome hr = r >>= fun x =>
      match x with
      | some a => pure a
      | none => r.untilSome hr := by
  ext bs : 2
  rw [run_untilSome, run_bind]
  rcases r.run bs with ⟨_ | _ | a, rest⟩ <;> rfl

/-! ### What a reader takes from where a cursor stands -/

namespace Cursor

theorem run_of_append {c : Cursor} {r : Reader α} {x : Except Error α} {used rest : Bytes}
    (hunread : c.unread = used ++ rest) (h : r.run c.unread = (x, rest)) :
    c.run r = (x, ⟨c.consumed ++ used, rest⟩) := by
  unfold run
  rw [h]
  simp [hunread]

theorem exists_used (c : Cursor) (r : Reader α) :
    ∃ x used rest, c.unread = used ++ rest ∧ r.run c.unread = (x, rest) ∧
      c.run r = (x, ⟨c.consumed ++ used, rest⟩) := by
  rcases hrun : r.run c.unread with ⟨x, rest⟩
  have hsuffix := r.rest_suffix c.unread
  rw [hrun] at hsuffix
  obtain ⟨used, hused⟩ := hsuffix
  exact ⟨x, used, rest, hused.symm, rfl, run_of_append hused.symm hrun⟩

/-- A reader goes on from where the one before it stopped. -/
theorem run_bind (c : Cursor) (r : Reader α) (f : α → Reader β) :
    c.run (r >>= f) =
      match c.run r with
      | (.ok a, c') => c'.run (f a)
      | (.error e, c') => (.error e, c') := by
  obtain ⟨x, used, rest, hunread, hrun, hc⟩ := c.exists_used r
  rw [hc]
  cases x with
  | error e => exact run_of_append hunread (Reader.run_bind_of_error hrun)
  | ok a =>
    obtain ⟨y, more, rest', hrest, hrun', hc'⟩ := exists_used ⟨c.consumed ++ used, rest⟩ (f a)
    have hboth : c.unread = (used ++ more) ++ rest' := by
      rw [hunread, List.append_assoc]
      exact congrArg (used ++ ·) hrest
    have hrun2 : (r >>= f).run c.unread = (y, rest') := by
      rw [Reader.run_bind_of_ok hrun]
      exact hrun'
    simp only
    rw [hc', run_of_append hboth hrun2, List.append_assoc]

theorem run_pure (c : Cursor) (a : α) : c.run (pure a) = (.ok a, c) := by
  simp [run]

theorem run_untilSome (c : Cursor) (r : Reader (Option α)) (hr : r.Consumes) :
    c.run (r.untilSome hr) =
      match c.run r with
      | (.ok (some a), c') => (.ok a, c')
      | (.ok none, c') => c'.run (r.untilSome hr)
      | (.error e, c') => (.error e, c') := by
  rw [congrArg c.run (r.untilSome_eq_bind hr), run_bind]
  rcases c.run r with ⟨_ | _ | a, c'⟩
  · rfl
  · rfl
  · exact run_pure c' a

theorem run_fail (c : Cursor) (e : Error) : c.run (Reader.fail e : Reader α) = (.error e, c) := by
  simp [run]

theorem position_le_length (c : Cursor) : c.position ≤ c.bytes.length := by
  simp [position, bytes]

theorem length_sub_position (c : Cursor) : c.bytes.length - c.position = c.remaining := by
  simp [position, bytes, remaining]

theorem drop_position (c : Cursor) : c.bytes.drop c.position = c.unread := by
  simp [position, bytes]

/-- Bytes are taken if so many are left, and otherwise the cursor stays. -/
theorem run_take (c : Cursor) (n : Nat) :
    c.run (Reader.take n) =
      if n ≤ c.remaining then
        (.ok (c.unread.take n), ⟨c.consumed ++ c.unread.take n, c.unread.drop n⟩)
      else (.error (.truncated n c.remaining), c) := by
  by_cases hn : n ≤ c.remaining
  · have hrun : (Reader.take n).run c.unread = (.ok (c.unread.take n), c.unread.drop n) := by
      rw [Reader.run_take]
      exact if_pos hn
    rw [if_pos hn]
    exact run_of_append (List.take_append_drop n c.unread).symm hrun
  · have hrun : (Reader.take n).run c.unread = (.error (.truncated n c.remaining), c.unread) := by
      rw [Reader.run_take]
      exact if_neg hn
    rw [if_neg hn, run_of_append (List.nil_append c.unread).symm hrun]
    simp

theorem length_of_run_take {c c' : Cursor} {n : Nat} {bs : Bytes}
    (h : c.run (Reader.take n) = (.ok bs, c')) : bs.length = n := by
  rw [run_take] at h
  by_cases hn : n ≤ c.remaining
  · rw [if_pos hn] at h
    cases h
    exact List.length_take_of_le hn
  · rw [if_neg hn] at h
    cases h

theorem unread_length_lt_of_run {c c' : Cursor} {r : Reader α} (hr : r.Consumes) {a : α}
    (h : c.run r = (.ok a, c')) : c'.unread.length < c.unread.length := by
  obtain ⟨x, used, rest, -, hrun, hc⟩ := c.exists_used r
  rw [hc] at h
  cases h
  exact hr _ _ _ hrun

end Cursor

theorem Reader.byte_eq_take : byte = take 1 >>= fun bs =>
    match bs with
    | [] => fail (.truncated 1 0)
    | b :: _ => pure b := by
  ext bs : 2
  cases bs with
  | nil => rfl
  | cons b bs =>
    have htake : (take 1).run (b :: bs) = (.ok [b], bs) := by simp [run_take]
    rw [run_bind_of_ok htake]
    rfl

/-! ### Computations that look where they are -/

/-- A computation with a state. It gives a value or an error and the state it reached,
or nothing if it went out of range. -/
abbrev Ranged (σ : Type) := ExceptT Error (StateT σ Option)

theorem Ranged.run_bind {σ : Type} (x : Ranged σ α) (f : α → Ranged σ β) (s : σ) :
    (x >>= f) s =
      match x s with
      | none => none
      | some (.ok a, s') => f a s'
      | some (.error e, s') => some (.error e, s') := by
  show (x s).bind _ = _
  rcases x s with _ | ⟨_ | a, s'⟩ <;> rfl

/-! ### Readers by position -/

/-- A computation that reads a buffer from a position on. It gives a value or an
error and the position it reached, or nothing if it went out of range. -/
abbrev Indexed := ReaderT Bytes (Ranged Nat)

namespace Indexed

/-- Out of range. -/
def outOfRange : Indexed α := fun _ _ => none

/-- The number of bytes from the position on; there is none beyond the end. -/
def remaining : Indexed Nat := fun source position =>
  if position ≤ source.length then some (.ok (source.length - position), position) else none

/-- The bytes of a buffer from `start` up to `stop`, if these are in range. -/
def slice (source : Bytes) (start stop : Nat) : Option Bytes :=
  if start ≤ stop ∧ stop ≤ source.length then some ((source.drop start).take (stop - start))
  else none

/-- Cuts out the next `n` bytes and moves behind them. -/
def cut (n : Nat) : Indexed Bytes := fun source position =>
  (slice source position (position + n)).map fun bs => (.ok bs, position + n)

/-- The next `n` bytes; if fewer are left, none of them is taken. -/
def take (n : Nat) : Indexed Bytes := do
  let left ← remaining
  if left < n then throw (.truncated n left) else cut n

/-- The next `n` bytes, as an array of that size. -/
def array (n : Nat) : Indexed Bytes := do
  let bs ← take n
  if bs.length = n then return bs else outOfRange

/-- A number of at most `count` digits. -/
def digits : (count : Nat) → Indexed Nat
  | 0 => throw (.malformed (.varintTooLong Varint.maxLength))
  | count + 1 => do
    match ← take 1 with
    | [] => outOfRange
    | b :: _ =>
      if b.toNat < 128 then
        return b.toNat
      else
        let high ← digits count
        return b.toNat % 128 + 128 * high

/-- A varint. -/
def varint : Indexed UInt64 := do
  let n ← digits Varint.maxLength
  return UInt64.ofNat n

/-- A key. -/
def key : Indexed Key := do
  let tag ← varint
  match Key.ofTag tag with
  | .ok k => return k
  | .error e => throw e

/-- A signed number. -/
def int32 : Indexed Int32 := do
  let v ← varint
  return v.toUInt32.toInt32

/-- A run of bytes after its length. -/
def delimited : Indexed Bytes := do
  let length ← varint
  take length.toNat

/-- Text after its length in bytes. -/
def text : Indexed String := do
  let bs ← delimited
  match Text.decode bs with
  | .ok s => return s
  | .error fault => throw (.malformed (.invalidText fault))

/-- Checks that nothing is left. -/
def finish : Indexed Unit := do
  let left ← remaining
  if 0 < left then throw (.malformed (.unconsumed left)) else return ()

/-- Repeats `round` until it gives a value. There is none if a round does not move on. -/
def untilSome (round : Indexed (Option α)) : Indexed α := fun source position =>
  match round source position with
  | none => none
  | some (.error e, position') => some (.error e, position')
  | some (.ok (some a), position') => some (.ok a, position')
  | some (.ok none, position') =>
    if position < position' ∧ position' ≤ source.length then untilSome round source position'
    else none
termination_by source position => source.length - position

/-- One round inside a group of `field`: the end of the group, or an entry that
`skip` passes over. -/
def groupRound (skip : Key → Indexed Unit) (field : UInt32) : Indexed (Option Unit) := do
  let left ← remaining
  if left = 0 then
    throw (.truncated 1 0)
  else
    let inner ← key
    if inner.type = .endGroup then
      if inner.field = field then return some ()
      else throw (.malformed (.mismatchedEndGroup inner.field field))
    else
      skip inner
      return none

/-- Passes over the payload of a key, with `depth` groups open of the `limit` allowed. -/
def skip (limit depth : Nat) (k : Key) : Indexed Unit :=
  match k.type with
  | .varint => discard varint
  | .fixed64 => discard (array 8)
  | .lengthDelimited => discard delimited
  | .fixed32 => discard (array 4)
  | .startGroup =>
    if depth < limit then untilSome (groupRound (fun inner => skip limit (depth + 1) inner) k.field)
    else throw (.malformed (.groupsTooDeep limit))
  | .endGroup => throw (.malformed (.unexpectedEndGroup k.field))
termination_by limit - depth

/-! ### Following the readers of unread bytes -/

theorem run_bind (x : Indexed α) (f : α → Indexed β) (source : Bytes) (position : Nat) :
    (x >>= f) source position =
      match x source position with
      | none => none
      | some (.ok a, position') => f a source position'
      | some (.error e, position') => some (.error e, position') := by
  show (x source position).bind _ = _
  rcases x source position with _ | ⟨_ | a, position'⟩ <;> rfl

/-- From where the cursor stands, `x` does by position what `r` does on the unread
bytes: it stays in range, gives the same result and stops at the same place. -/
def Follows (x : Indexed α) (r : Reader α) (c : Cursor) : Prop :=
  x c.bytes c.position = some ((c.run r).1, (c.run r).2.position)

variable {c : Cursor}

theorem follows_pure (a : α) : Follows (pure a) (pure a) c := by
  unfold Follows
  rw [Cursor.run_pure]
  rfl

theorem follows_throw (e : Error) : Follows (throw e : Indexed α) (Reader.fail e) c := by
  unfold Follows
  rw [Cursor.run_fail]
  rfl

/-- What comes next follows from where the first one stopped. -/
theorem Follows.bind {x : Indexed α} {r : Reader α} {f : α → Indexed β} {g : α → Reader β}
    (hx : Follows x r c) (hf : ∀ a c', c.run r = (.ok a, c') → Follows (f a) (g a) c') :
    Follows (x >>= f) (r >>= g) c := by
  unfold Follows at hx ⊢
  rw [run_bind, hx, Cursor.run_bind]
  -- the buffer is the same from where the first one stopped
  have hbytes := c.bytes_run r
  rcases hc : c.run r with ⟨e | a, c'⟩
  · rfl
  · have hnext := hf a c' hc
    unfold Follows at hnext
    rw [hc] at hbytes
    simp only at hbytes ⊢
    rw [← hbytes, hnext]

theorem Follows.map {x : Indexed α} {r : Reader α} (hx : Follows x r c) (f : α → β) :
    Follows (f <$> x) (f <$> r) c := by
  rw [map_eq_pure_bind, map_eq_pure_bind]
  exact hx.bind fun a c' _ => follows_pure (f a)

theorem Follows.discard {x : Indexed α} {r : Reader α} (hx : Follows x r c) :
    Follows (discard x) (discard r) c :=
  hx.map fun _ => ()

theorem remaining_eq (c : Cursor) :
    remaining c.bytes c.position = some (.ok c.remaining, c.position) := by
  unfold remaining
  rw [if_pos c.position_le_length, c.length_sub_position]

/-- The one step that goes by the position: a slice is cut only where bytes are left. -/
theorem follows_take (n : Nat) : Follows (take n) (Reader.take n) c := by
  unfold Follows take
  rw [run_bind, remaining_eq, Cursor.run_take]
  by_cases hn : n ≤ c.remaining
  · have hstop : c.position + n ≤ c.bytes.length := by
      have := c.length_sub_position
      have := c.position_le_length
      omega
    have hcut : slice c.bytes c.position (c.position + n) = some (c.unread.take n) := by
      unfold slice
      rw [if_pos ⟨Nat.le_add_right _ _, hstop⟩, c.drop_position, Nat.add_sub_cancel_left]
    have hlen : (c.unread.take n).length = n := List.length_take_of_le hn
    simp only
    rw [if_neg (by omega), if_pos hn]
    show (slice c.bytes c.position (c.position + n)).map _ = _
    rw [hcut]
    simp [Cursor.position, hlen]
  · simp only
    rw [if_pos (by omega), if_neg hn]
    rfl

theorem follows_array (n : Nat) : Follows (array n) (Reader.take n) c := by
  have hbind : Reader.take n = Reader.take n >>= pure := (bind_pure _).symm
  unfold array
  rw [hbind]
  refine (follows_take n).bind fun bs c' hc => ?_
  rw [if_pos (Cursor.length_of_run_take hc)]
  exact follows_pure bs

theorem follows_digits (count : Nat) : ∀ c, Follows (digits count) (Varint.readDigits count) c := by
  induction count with
  | zero => exact fun c => follows_throw _
  | succ count ih =>
    intro c
    rw [digits, Varint.readDigits, Reader.byte_eq_take, bind_assoc]
    refine (follows_take 1).bind fun bs c' hc => ?_
    cases bs with
    | nil =>
      -- one byte was taken, so there is a first
      exact absurd (Cursor.length_of_run_take hc) (by decide)
    | cons b bs =>
      simp only [pure_bind]
      by_cases hb : b.toNat < 128
      · rw [if_pos hb, if_pos hb]
        exact follows_pure _
      · rw [if_neg hb, if_neg hb]
        exact (ih c').bind fun high c'' _ => follows_pure _

theorem follows_varint : Follows varint Varint.read c :=
  (follows_digits _ c).bind fun _ _ _ => follows_pure _

theorem follows_key : Follows key Key.read c := by
  refine follows_varint.bind fun tag c' _ => ?_
  cases Key.ofTag tag with
  | ok k => exact follows_pure k
  | error e => exact follows_throw e

theorem follows_int32 : Follows int32 Payload.int32 c :=
  follows_varint.bind fun _ _ _ => follows_pure _

theorem follows_delimited : Follows delimited Payload.delimited c :=
  follows_varint.bind fun length _ _ => follows_take length.toNat

theorem follows_text : Follows text Payload.text c := by
  refine follows_delimited.bind fun bs c' _ => ?_
  cases Text.decode bs with
  | ok s => exact follows_pure s
  | error fault => exact follows_throw _

theorem follows_finish : Follows finish Reader.finish c := by
  unfold Follows finish
  rw [run_bind, remaining_eq]
  by_cases hend : c.unread = []
  · have hrun : Reader.finish.run c.unread = (.ok (), c.unread) := by rw [hend]; rfl
    have hnone : c.remaining = 0 := by simp [Cursor.remaining, hend]
    rw [Cursor.run_of_append (List.nil_append _).symm hrun, hnone]
    simp only [Nat.lt_irrefl, if_false, List.append_nil]
    rfl
  · have hrun : Reader.finish.run c.unread =
        (.error (.malformed (.unconsumed c.remaining)), c.unread) := by
      obtain ⟨b, bs, hcons⟩ := List.exists_cons_of_ne_nil hend
      rw [Cursor.remaining, hcons, Reader.run_finish_cons]
    have hsome : 0 < c.remaining := List.length_pos_iff.2 hend
    rw [Cursor.run_of_append (List.nil_append _).symm hrun]
    simp only [hsome, if_true, List.append_nil]
    rfl

/-! ### Loops and groups -/

/-- Rounds that follow are followed to the end, as each of them takes a byte. -/
theorem Follows.untilSome {x : Indexed (Option α)} {r : Reader (Option α)} {hr : r.Consumes}
    (hx : ∀ c, Follows x r c) (c : Cursor) : Follows (untilSome x) (r.untilSome hr) c := by
  have hround := hx c
  have hbytes := c.bytes_run r
  have hloop := c.run_untilSome r hr
  unfold Follows at hround ⊢
  rw [Indexed.untilSome, hround, hloop]
  rcases hc : c.run r with ⟨_ | _ | a, c'⟩
  · rfl
  · rw [hc] at hbytes
    have hlt := Cursor.unread_length_lt_of_run hr hc
    have hmoved : c.position < c'.position ∧ c'.position ≤ c.bytes.length := by
      have hleft := c.length_sub_position
      have hleft' := c'.length_sub_position
      have hinside := c'.position_le_length
      simp only [hbytes, Cursor.remaining] at hleft hleft' hinside
      omega
    simp only
    rw [if_pos hmoved, ← hbytes]
    exact Follows.untilSome hx c'
  · rfl
termination_by c.unread.length

theorem follows_groupRound {skip : Key → Indexed Unit} {skip' : Key → Reader Unit} (f : UInt32)
    (hs : ∀ k c, Follows (skip k) (skip' k) c) (c : Cursor) :
    Follows (groupRound skip f) (Skip.groupRound skip' f) c := by
  unfold Follows groupRound
  rw [run_bind, remaining_eq]
  by_cases hend : c.unread = []
  · -- nothing is left, and the key that should follow would say so too
    have hkey : Key.read.run c.unread = (.error (.truncated 1 0), c.unread) := by rw [hend]; rfl
    have hnone : c.remaining = 0 := by simp [Cursor.remaining, hend]
    unfold Skip.groupRound
    rw [Cursor.run_of_append (List.nil_append _).symm (Reader.run_bind_of_error hkey), hnone]
    simp only [if_true, List.append_nil]
    rfl
  · have hsome : c.remaining ≠ 0 := fun h => hend (List.length_eq_zero_iff.1 h)
    simp only [if_neg hsome]
    refine follows_key.bind fun inner c' _ => ?_
    by_cases hclose : inner.type = .endGroup
    · rw [if_pos hclose, if_pos hclose]
      by_cases hf : inner.field = f
      · rw [if_pos hf, if_pos hf]
        exact follows_pure _
      · rw [if_neg hf, if_neg hf]
        exact follows_throw _
    · rw [if_neg hclose, if_neg hclose]
      exact (hs inner c').bind fun _ c'' _ => follows_pure _

/-- A payload is passed over by position as it is on the unread bytes, at any depth. -/
theorem follows_skip (limit depth : Nat) (k : Key) (c : Cursor) :
    Follows (skip limit depth k) (Skip.payload (Skip.group limit (limit - depth)) k) c := by
  rw [skip]
  unfold Skip.payload
  cases k.type with
  | varint => exact follows_varint.discard
  | fixed64 => exact (follows_array 8).discard
  | lengthDelimited => exact follows_delimited.discard
  | fixed32 => exact (follows_array 4).discard
  | startGroup =>
    by_cases hroom : depth < limit
    · -- one group fewer may be opened inside
      have hbudget : limit - depth = limit - (depth + 1) + 1 := by omega
      simp only [if_pos hroom, hbudget]
      exact Follows.untilSome (follows_groupRound k.field fun k' c' =>
        follows_skip limit (depth + 1) k' c') c
    · have hnone : limit - depth = 0 := by omega
      simp only [if_neg hroom, hnone]
      exact follows_throw _
  | endGroup => exact follows_throw _
termination_by limit - depth

end Indexed
end WireFormat
