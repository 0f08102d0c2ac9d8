/-
# Items

What a writer can be asked to write. Each item is a sequence of chunks, so an
item of several chunks can be cut off between them when the buffer is full.
The length of an item is computed without writing it.

Key definitions: `Item`, `Item.chunks`, `Item.length`, `Writer.write`.
Key theorems: `Item.length_chunks`.
-/
import WireFormat.Payload
import WireFormat.Writer

namespace WireFormat

/-- Something to be written. -/
inductive Item where
  /-- Bytes as they are. -/
  | bytes (bs : Bytes)
  /-- A number in base 128. -/
  | varint (v : UInt64)
  /-- A key. -/
  | key (key : Key)
  /-- A signed number under a field. -/
  | int32 (field : UInt32) (v : Int32)
  /-- A text under a field. -/
  | text (field : UInt32) (s : String)
  /-- Bytes after their length. -/
  | delimited (bs : Bytes)
  deriving DecidableEq

namespace Item

/-- The chunks of bytes after their length. -/
def delimitedChunks (bs : Bytes) : List Bytes :=
  [Varint.encode (UInt64.ofNat bs.length), bs]

/-- The chunks of an item, in order. -/
def chunks : Item → List Bytes
  | bytes bs => [bs]
  | varint v => [Varint.encode v]
  | key k => [k.encode]
  | int32 field v => [Key.encode ⟨field, .varint⟩, Varint.encode (Payload.ofInt32 v)]
  | text field s => Key.encode ⟨field, .lengthDelimited⟩ :: delimitedChunks (Text.encode s)
  | delimited bs => delimitedChunks bs

/-- The number of bytes after a length, the length included. -/
def delimitedLength (length : Nat) : Nat :=
  Varint.length (UInt64.ofNat length) + length

/-- The number of bytes of an item. -/
def length : Item → Nat
  | bytes bs => bs.length
  | varint v => Varint.length v
  | key k => k.length
  | int32 field v => Key.length ⟨field, .varint⟩ + Varint.length (Payload.ofInt32 v)
  | text field s => Key.length ⟨field, .lengthDelimited⟩ + delimitedLength s.utf8ByteSize
  | delimited bs => delimitedLength bs.length

theorem length_encode_text (s : String) : (Text.encode s).length = s.utf8ByteSize := rfl

theorem length_delimitedChunks (bs : Bytes) :
    (delimitedChunks bs).flatten.length = delimitedLength bs.length := by
  simp [delimitedChunks, delimitedLength, Varint.length_encode]

theorem length_chunks (item : Item) : item.chunks.flatten.length = item.length := by
  cases item with
  | bytes bs => simp [chunks, length]
  | varint v => simp [chunks, length, Varint.length_encode]
  | key k => simp [chunks, length, Key.length_encode]
  | int32 field v => simp [chunks, length, Key.length_encode, Varint.length_encode]
  | text field s =>
    rw [chunks, List.flatten_cons, List.length_append, length_delimitedChunks, Key.length_encode,
      length_encode_text, length]
  | delimited bs => exact length_delimitedChunks bs

end Item

/-- Writes the chunks of an item up to the first that does not fit. -/
def Writer.write (w : Writer) (item : Item) : Except Error Unit × Writer :=
  w.putAll item.chunks

end WireFormat
