/-
# Replies to a copy

The reply to a request to copy a value into persistent storage. It holds one
outcome, the index of the stored value or a description of what went wrong,
each under its own field; the last one read or set stands. Other entries are
kept and written after the outcome.

Key definitions: `CopyReply.Outcome`, `CopyReply`, `CopyReply.merge`,
`CopyReply.setErrorBytes`, `CopyReply.ofResult`, `CopyReply.toResult?`.
Key theorems: `CopyReply.claimedLength_eq`.
-/
import WireFormat.Item
import WireFormat.Message

namespace WireFormat
namespace CopyReply

/-- How the copy went, if that is said. -/
inductive Outcome where
  | unset
  /-- The value is stored under an index. -/
  | index (v : Int32)
  /-- The copy failed. -/
  | error (description : String)
  deriving DecidableEq, Hashable

/-- The field number of the index. -/
def indexField : UInt32 := 1

/-- The field number of the description of a failure. -/
def errorField : UInt32 := 2

namespace Outcome

/-- The name of the case in the log. -/
def caseName : Outcome → String
  | unset => "NotSet"
  | index _ => "PersistentIndex"
  | error _ => "Error"

/-- The field number of the case, 0 if nothing is set. -/
def caseNumber : Outcome → UInt32
  | unset => 0
  | index _ => indexField
  | error _ => errorField

/-- The entry that an outcome is written as. -/
def item? : Outcome → Option Item
  | unset => none
  | index v => some (.int32 indexField v)
  | error description => some (.text errorField description)

/-- The reader of an outcome, if the key is that of a case. -/
def reader? (key : Key) : Option (Reader Outcome) :=
  if key.field = indexField then
    some do
      Reader.ofExcept (key.expect .varint)
      let v ← Payload.int32
      return index v
  else if key.field = errorField then
    some do
      Reader.ofExcept (key.expect .lengthDelimited)
      let description ← Payload.text
      return error description
  else none

end Outcome
end CopyReply

/-- The reply to a request to copy a value into persistent storage. -/
structure CopyReply where
  outcome : CopyReply.Outcome := .unset
  /-- The entries that a reply does not know, in the order they came. -/
  unknown : List Entry := []
  deriving DecidableEq, Hashable

namespace CopyReply

/-! ### Building and taking apart -/

/-- A reply that holds an index. -/
def ofIndex (v : Int32) : CopyReply := { outcome := .index v }

/-- A reply that holds a failure. -/
def ofError (description : String) : CopyReply := { outcome := .error description }

/-- The reply that tells a result. -/
def ofResult : Except String Int32 → CopyReply
  | .ok v => ofIndex v
  | .error description => ofError description

/-- The result that a reply tells, if it tells one. -/
def toResult? (m : CopyReply) : Option (Except String Int32) :=
  match m.outcome with
  | .unset => none
  | .index v => some (.ok v)
  | .error description => some (.error description)

/-- The index, 0 if the reply holds none. -/
def index (m : CopyReply) : Int32 :=
  match m.outcome with
  | .index v => v
  | _ => 0

/-- Whether the reply holds an index. -/
def hasIndex (m : CopyReply) : Bool :=
  match m.outcome with
  | .index _ => true
  | _ => false

/-- The description of the failure, empty if the reply holds none. -/
def error (m : CopyReply) : String :=
  match m.outcome with
  | .error description => description
  | _ => ""

/-- Whether the reply holds a failure. -/
def hasError (m : CopyReply) : Bool :=
  match m.outcome with
  | .error _ => true
  | _ => false

/-! ### Changing -/

/-- The reply with an index in place of what it held. -/
def setIndex (m : CopyReply) (v : Int32) : CopyReply := { m with outcome := .index v }

/-- The reply with a failure in place of what it held. -/
def setError (m : CopyReply) (description : String) : CopyReply :=
  { m with outcome := .error description }

/-- The reply with a failure given in bytes, which must be UTF-8. -/
def setErrorBytes (m : CopyReply) (bs : Bytes) : Except Error CopyReply :=
  match Text.decode bs with
  | .ok description => .ok (m.setError description)
  | .error fault => .error (.invalidArgument (.invalidText fault))

/-- The reply without its outcome. -/
def clear (m : CopyReply) : CopyReply := { m with outcome := .unset }

/-- The reply without its index, if it holds one. -/
def clearIndex (m : CopyReply) : CopyReply := if m.hasIndex then m.clear else m

/-- The reply without its failure, if it holds one. -/
def clearError (m : CopyReply) : CopyReply := if m.hasError then m.clear else m

/-- The reply without the entries it does not know. -/
def clearUnknown (m : CopyReply) : CopyReply := { m with unknown := [] }

/-- The reply with one more entry it does not know. -/
def addUnknown (m : CopyReply) (entry : Entry) : CopyReply :=
  { m with unknown := m.unknown ++ [entry] }

/-- `m` with what `other` holds: its outcome stands if it is set, and its
entries follow those of `m`. -/
def merge (m other : CopyReply) : CopyReply where
  outcome := if other.outcome = .unset then m.outcome else other.outcome
  unknown := m.unknown ++ other.unknown

/-- `m` after `outcome` was read from `field`. -/
def replace (m : CopyReply) (field : UInt32) (outcome : Outcome) : CopyReply × List Event :=
  ({ m with outcome },
    if m.outcome = .unset then [] else [.replaced "Response" m.outcome.caseName field])

/-! ### As a message -/

instance : Message CopyReply where
  name := "rinterop::copy_to_persistent_ref::CopyToPersistentRefResponse"
  empty := {}
  known? m key := (Outcome.reader? key).map fun payload => m.replace key.field <$> payload
  keep := addUnknown
  chunks m := (m.outcome.item?.map Item.chunks).getD [] ++ m.unknown.map Entry.raw
  claimedLength m := (m.outcome.item?.map Item.length).getD 0 + Entry.totalLength m.unknown

theorem claimedLength_eq (m : CopyReply) :
    Message.claimedLength m = (Message.chunks m).flatten.length := by
  show (m.outcome.item?.map Item.length).getD 0 + Entry.totalLength m.unknown =
    ((m.outcome.item?.map Item.chunks).getD [] ++ m.unknown.map Entry.raw).flatten.length
  rw [List.flatten_append, List.length_append, Entry.totalLength_eq]
  cases m.outcome.item? with
  | none => rfl
  | some item =>
    rw [Option.map_some, Option.map_some, Option.getD_some, Option.getD_some, Item.length_chunks]

end CopyReply
end WireFormat
