/-
# Cursors

A cursor stands in a byte string: some bytes have been consumed, the others are
unread. Running a reader moves it forward over what the reader took, also when
the reader failed.

Key definitions: `Cursor`, `Cursor.ofBytes`, `Cursor.run`, `Cursor.position`,
`Cursor.remaining`, `Cursor.consumedSince`.
Key theorems: `Cursor.bytes_run`, `Cursor.position_le_run`.
-/
import WireFormat.Reader

namespace WireFormat

/-- A place in a byte string. -/
structure Cursor where
  consumed : Bytes
  unread : Bytes
  deriving DecidableEq

namespace Cursor

variable {α : Type}

/-- The cursor at the start of a byte string. -/
def ofBytes (bs : Bytes) : Cursor := ⟨[], bs⟩

/-- The byte string that a cursor stands in. -/
def bytes (c : Cursor) : Bytes := c.consumed ++ c.unread

/-- The number of bytes consumed. -/
def position (c : Cursor) : Nat := c.consumed.length

/-- The number of bytes unread. -/
def remaining (c : Cursor) : Nat := c.unread.length

/-- Runs a reader on the unread bytes. -/
def run (c : Cursor) (r : Reader α) : Except Error α × Cursor :=
  match r.run c.unread with
  | (result, rest) =>
    (result, ⟨c.consumed ++ c.unread.take (c.unread.length - rest.length), rest⟩)

/-- The bytes consumed since the cursor was at `start`, if it was there. -/
def consumedSince (c : Cursor) (start : Nat) : Option Bytes :=
  if start ≤ c.position then some (c.consumed.drop start) else none

theorem bytes_run (c : Cursor) (r : Reader α) : (c.run r).2.bytes = c.bytes := by
  have h := Reader.take_sub_append_of_suffix (r.rest_suffix c.unread)
  simp only [bytes, run]
  rw [List.append_assoc, h]

theorem position_le_run (c : Cursor) (r : Reader α) : c.position ≤ (c.run r).2.position := by
  simp [position, run]

end Cursor
end WireFormat
