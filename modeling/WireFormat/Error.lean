/-
# Errors

What can go wrong falls into three kinds: the input breaks a rule of the
format, the input ends too early, or the caller asked for something that cannot
be done. Each rule that can be broken is a cause of its own; the wording of all
of them is `Error.message`.

Key definitions: `Malformation`, `Misuse`, `Error`, `Error.message`.
-/
import WireFormat.Text
import WireFormat.WireType

namespace WireFormat

/-- A rule of the format that an input breaks. -/
inductive Malformation where
  /-- A key holds a wire type code that is not assigned. -/
  | unassignedWireType (code : Nat)
  /-- A key has field number 0. -/
  | fieldZero
  /-- A key has a field number above the largest one. -/
  | fieldTooLarge (field limit : Nat)
  /-- A known field has another wire type than its values have. -/
  | unexpectedWireType (field : UInt32) (found expected : WireType)
  /-- A varint goes on after its last possible byte. -/
  | varintTooLong (limit : Nat)
  /-- The payload of a text field is not UTF-8. -/
  | invalidText (fault : Text.Fault)
  /-- Bytes are left where the input should end. -/
  | unconsumed (left : Nat)
  /-- A group is opened inside as many groups as may be open at once. -/
  | groupsTooDeep (limit : Nat)
  /-- A group is closed by the end key of another field. -/
  | mismatchedEndGroup (found opened : UInt32)
  /-- An end key stands where an entry should start. -/
  | unexpectedEndGroup (field : UInt32)
  /-- A message is longer than messages may be. -/
  | messageTooLong (length limit : Nat)
  /-- A reason that the caller states. -/
  | stated (reason : String)
  deriving DecidableEq

/-- Something a caller asked for that cannot be done. -/
inductive Misuse where
  /-- A chunk is longer than the space left in the buffer. -/
  | bufferTooSmall (wanted left : Nat)
  /-- A buffer should be full and is not. -/
  | bufferNotFilled (left : Nat)
  /-- Bytes given as text are not UTF-8. -/
  | invalidText (fault : Text.Fault)
  /-- A reason that the caller states. -/
  | stated (reason : String)
  deriving DecidableEq

/-- Why an operation failed. -/
inductive Error where
  /-- The input breaks a rule of the format. -/
  | malformed (cause : Malformation)
  /-- The input ends: `needed` bytes were asked for and `remaining` were left. -/
  | truncated (needed remaining : Nat)
  /-- The caller asked for something that cannot be done. -/
  | invalidArgument (cause : Misuse)
  deriving DecidableEq

/-- The wording of a broken rule. -/
def Malformation.reason : Malformation → String
  | unassignedWireType code => WireType.unassignedMessage code
  | fieldZero => "Field number 0 is invalid"
  | fieldTooLarge field limit => s!"Field number {field} exceeds the maximum of {limit}"
  | unexpectedWireType field found expected =>
    s!"Field {field} has wire type {found.name}, expected {expected.name}"
  | varintTooLong limit => s!"Varint is longer than {limit} bytes"
  | invalidText fault => s!"String is not valid UTF-8: {fault.message}"
  | unconsumed left => s!"Did not consume the whole buffer, {left} bytes are left"
  | groupsTooDeep limit => s!"Groups are nested deeper than {limit}"
  | mismatchedEndGroup found opened =>
    s!"End group key for field {found} does not match start group of field {opened}"
  | unexpectedEndGroup field => s!"Unexpected end group key for field {field}"
  | messageTooLong length limit =>
    s!"Message of {length} bytes exceeds the size limit of {limit} bytes"
  | stated reason => reason

/-- The wording of a misuse. -/
def Misuse.reason : Misuse → String
  | bufferTooSmall wanted left =>
    s!"Tried to write {wanted} bytes but target buffer only has {left} left"
  | bufferNotFilled left =>
    s!"Serialization did not fill the whole buffer, {left} bytes are left"
  | invalidText fault => s!"Error description is not valid UTF-8: {fault.message}"
  | stated reason => reason

/-- The wording of an error. -/
def Error.message : Error → String
  | malformed cause => s!"Malformed input: {cause.reason}"
  | truncated needed remaining =>
    s!"Truncated input: needed {needed} bytes, but only {remaining} are left"
  | invalidArgument cause => s!"Invalid argument: {cause.reason}"

end WireFormat
