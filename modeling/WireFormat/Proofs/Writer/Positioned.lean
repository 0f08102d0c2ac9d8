/-
# Writing by position

A writer can also be kept as a buffer and a position in it. Bytes then go into the
slice at the position, if the buffer has one that long, and the space left is a
difference. Writing a number puts its digits into an array first, and an item of
several parts is written one after the other, up to the first that is refused. Where a
difference would be below zero, or the bytes not as long as the slice they go into,
there is no outcome at all.

This never happens: from every place that a writer can be at, writing by position does
what the writer does with the chunks.

Key definitions: `Writer.Place`, `Writer.Positioned`, `Writer.Positioned.bytes`,
`Writer.Positioned.item`, `Writer.Positioned.Follows`.
Key theorems: `Writer.Positioned.follows_bytes`, `Writer.Positioned.Follows.seq`,
`Writer.Positioned.follows_item`, `Writer.Positioned.finish_eq`.
-/
import WireFormat.Proofs.Cursor.Indexed
import WireFormat.Proofs.Varint.Words
import WireFormat.Proofs.Written

namespace WireFormat
namespace Writer

/-! ### Buffers and positions -/

/-- A buffer and the position where writing goes on. -/
structure Place where
  buffer : Bytes
  position : Nat
  deriving DecidableEq

/-- The place that a writer is at. -/
def place (w : Writer) : Place := ⟨w.buffer, w.written.length⟩

/-- A computation that writes into a buffer at a position. It has no outcome if it goes
out of range. -/
abbrev Positioned := Ranged Place

namespace Positioned

/-- The number of bytes from the position on; there is none beyond the end. -/
def space : Positioned Nat := fun p =>
  if p.position ≤ p.buffer.length then some (.ok (p.buffer.length - p.position), p) else none

/-- Copies bytes over a slice at the position and moves behind them. -/
def copy (slice bs : Bytes) : Positioned Unit := fun p =>
  if slice.length = bs.length then
    some (.ok (),
      { buffer := p.buffer.take p.position ++ bs ++ p.buffer.drop (p.position + bs.length)
        position := p.position + bs.length })
  else none

/-- Writes bytes, if there is a slice at the position that they go into. -/
def bytes (bs : Bytes) : Positioned Unit := do
  let p ← get
  match Indexed.slice p.buffer p.position (p.position + bs.length) with
  | some slice => copy slice bs
  | none =>
    let left ← space
    throw (.invalidArgument (.bufferTooSmall bs.length left))

/-- Writes a number in base 128. -/
def varint (v : UInt64) : Positioned Unit :=
  match Varint.scratch v with
  | some bs => bytes bs
  | none => fun _ => none

/-- Writes a key. -/
def key (k : Key) : Positioned Unit := varint k.tag.toUInt64

/-- Writes bytes after their length. -/
def delimited (bs : Bytes) : Positioned Unit := do
  varint (UInt64.ofNat bs.length)
  bytes bs

/-- Writes an item. -/
def item : Item → Positioned Unit
  | .bytes bs => bytes bs
  | .varint v => varint v
  | .key k => key k
  | .int32 field v => do
    key ⟨field, .varint⟩
    varint (Payload.ofInt32 v)
  | .text field s => do
    key ⟨field, .lengthDelimited⟩
    delimited (Text.encode s)
  | .delimited bs => delimited bs

/-- Checks that the buffer is full. -/
def finish : Positioned Unit := do
  let left ← space
  if 0 < left then throw (.invalidArgument (.bufferNotFilled left)) else return ()

/-! ### Following a writer -/

/-- From wherever a writer is, `x` does by position what the writer does with `chunks`. -/
def Follows (x : Positioned Unit) (chunks : List Bytes) : Prop :=
  ∀ w : Writer, x w.place = some ((w.putAll chunks).1, (w.putAll chunks).2.place)

theorem space_eq (w : Writer) : space w.place = some (.ok w.free.length, w.place) := by
  have hle : w.place.position ≤ w.place.buffer.length := by simp [place, buffer]
  have hspace : w.place.buffer.length - w.place.position = w.free.length := by
    simp [place, buffer]
  rw [space, if_pos hle, hspace]

/-- There is a slice for bytes exactly if they are no longer than the space left. -/
theorem slice_eq (w : Writer) (n : Nat) :
    Indexed.slice w.place.buffer w.place.position (w.place.position + n) =
      if n ≤ w.free.length then some (w.free.take n) else none := by
  have hrange : w.place.position ≤ w.place.position + n ∧
      w.place.position + n ≤ w.place.buffer.length ↔ n ≤ w.free.length := by
    simp [place, buffer]
  simp only [Indexed.slice, hrange]
  simp [place, buffer]

theorem copy_eq (w : Writer) {slice bs : Bytes} (h : slice.length = bs.length) :
    copy slice bs w.place =
      some (.ok (), place ⟨w.written ++ bs, w.free.drop bs.length⟩) := by
  rw [copy, if_pos h]
  simp [place, buffer, List.drop_append]

/-- The one step that goes by the position: bytes are written exactly where there is a
slice for them. -/
theorem follows_bytes (bs : Bytes) : Follows (bytes bs) [bs] := by
  intro w
  have hget : (get : Positioned Place) w.place = some (.ok w.place, w.place) := rfl
  rw [bytes, Ranged.run_bind, hget]
  simp only [slice_eq]
  by_cases hle : bs.length ≤ w.free.length
  · simp only [if_pos hle, putAll, put_of_le hle]
    exact copy_eq w (List.length_take_of_le hle)
  · simp only [if_neg hle, putAll, put_of_lt (Nat.lt_of_not_le hle), Ranged.run_bind, space_eq]
    rfl

/-- What comes second is written if all of the first was. -/
theorem Follows.seq {x y : Positioned Unit} {xs ys : List Bytes} (hx : Follows x xs)
    (hy : Follows y ys) : Follows (x >>= fun _ => y) (xs ++ ys) := by
  intro w
  rw [Ranged.run_bind, hx w, putAll_append]
  rcases w.putAll xs with ⟨e | _, w'⟩
  · rfl
  · exact hy w'

theorem follows_varint (v : UInt64) : Follows (varint v) [Varint.encode v] := by
  rw [varint, Varint.scratch_eq]
  exact follows_bytes _

theorem follows_key (k : Key) : Follows (key k) [k.encode] := follows_varint _

theorem follows_delimited (bs : Bytes) : Follows (delimited bs) (Item.delimitedChunks bs) :=
  (follows_varint _).seq (follows_bytes bs)

theorem follows_item (i : Item) : Follows (item i) i.chunks := by
  cases i with
  | bytes bs => exact follows_bytes bs
  | varint v => exact follows_varint v
  | key k => exact follows_key k
  | int32 field v => exact (follows_key _).seq (follows_varint _)
  | text field s => exact (follows_key _).seq (follows_delimited _)
  | delimited bs => exact follows_delimited bs

theorem finish_eq (w : Writer) : finish w.place = some (w.finish, w.place) := by
  rw [finish, Ranged.run_bind, space_eq]
  by_cases hfree : w.free = []
  · simp only [hfree, List.length_nil, Nat.lt_irrefl, if_false, Writer.finish, if_true]
    rfl
  · have hpos : 0 < w.free.length := List.length_pos_iff.2 hfree
    simp only [if_pos hpos, Writer.finish, if_neg hfree]
    rfl

end Positioned
end Writer
end WireFormat
