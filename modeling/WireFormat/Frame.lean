/-
# Frames

Messages follow each other on a stream, each after its length. A frame is
appended whole or not at all, and taken whole or not at all: a message cannot
reach beyond its frame, and a failure leaves the stream as it was.

Key definitions: `Frame.append`, `Frame.take`.
Key theorems: `Frame.append_of_ok`, `Frame.append_of_error`.
-/
import WireFormat.Message

namespace WireFormat
namespace Frame

variable {α : Type} [Message α]

/-- The bytes of a frame: the claimed length of the message, then the message. -/
def encode (m : α) : Except Error Bytes :=
  let length := Message.claimedLength m
  Writer.fill (Varint.length (UInt64.ofNat length) + length)
    (Varint.encode (UInt64.ofNat length) :: Message.chunks m)

/-- Appends a message to a stream. -/
def append (m : α) (stream : Bytes) : Except Error Unit × Bytes :=
  match encode m with
  | .ok frame => (.ok (), stream ++ frame)
  | .error e => (.error e, stream)

/-- Takes a message off the front of a stream. -/
def take (limits : Limits) (stream : Bytes) : Report α × Bytes :=
  match Payload.delimited.run stream with
  | (.error e, _) => (⟨.error e, []⟩, stream)
  | (.ok body, rest) =>
    let report := Message.decode limits body
    match report.result with
    | .ok _ => (report, rest)
    | .error _ => (report, stream)

theorem append_of_ok {m : α} {frame : Bytes} (h : encode m = .ok frame) (stream : Bytes) :
    append m stream = (.ok (), stream ++ frame) := by
  rw [append, h]

theorem append_of_error {m : α} {e : Error} (h : encode m = .error e) (stream : Bytes) :
    append m stream = (.error e, stream) := by
  rw [append, h]

end Frame
end WireFormat
