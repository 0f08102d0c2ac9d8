/-
# Events

Decoding leaves a trace of what it did: an entry kept without being known, a
value replaced by a later one, a failure and the byte it was met at. Each event
has one line in the log, which names the message being decoded.

Key definitions: `Event`, `Event.line`.
-/
import WireFormat.Key

namespace WireFormat

/-- Something that happened while a message was decoded. -/
inductive Event where
  /-- An entry that the message does not know was kept. -/
  | kept (key : Key)
  /-- The case that a choice held gave way to the value of a field. -/
  | replaced (choice held : String) (field : UInt32)
  /-- Decoding stopped at a byte. -/
  | failed (position : Nat) (error : Error)
  deriving DecidableEq

/-- The log line of an event of a message called `name`. -/
def Event.line (name : String) : Event → String
  | kept key => s!"TRACE wire: Keeping unknown field {key.field} ({key.type.name}) of {name}"
  | replaced choice held field => s!"TRACE wire: {choice} {held} is replaced by field {field}"
  | failed position error =>
    s!"DEBUG wire: Decoding {name} failed at byte {position}: {error.message}"

end WireFormat
