/-
# Skipping payloads

The payload of a field that nobody knows is passed over by its wire type alone.
A group is passed over with everything in it, up to the end key of its own
field number; groups inside it are groups again, as deep as the limit allows.
The number of groups that may still be opened goes down by one with each level,
so the recursion is on it, and the loop over the entries of a group ends because
each round reads a key.

Key definitions: `Skip.payload`, `Skip.groupRound`, `Skip.group`, `Skip.field`.
Key theorems: `Skip.run_group_zero`, `Skip.run_group_succ`.
-/
import WireFormat.Payload

namespace WireFormat
namespace Skip

/-- Passes over the payload of a key, with `group` for a group of a field. -/
def payload (group : UInt32 → Reader Unit) (key : Key) : Reader Unit :=
  match key.type with
  | .varint => discard Varint.read
  | .fixed64 => discard Payload.fixed64
  | .lengthDelimited => discard Payload.delimited
  | .fixed32 => discard Payload.fixed32
  | .startGroup => group key.field
  | .endGroup => Reader.fail (.malformed (.unexpectedEndGroup key.field))

/-- One round inside a group of `field`: the end of the group, or an entry that
`skip` passes over. -/
def groupRound (skip : Key → Reader Unit) (field : UInt32) : Reader (Option Unit) := do
  let key ← Key.read
  if key.type = .endGroup then
    if key.field = field then
      return some ()
    else
      Reader.fail (.malformed (.mismatchedEndGroup key.field field))
  else
    skip key
    return none

theorem consumes_groupRound (skip : Key → Reader Unit) (field : UInt32) :
    (groupRound skip field).Consumes :=
  Key.consumes_read.bind _

/-- Passes over a group of `field` whose start key was read, when `budget`
groups may still be opened of the `limit` allowed. -/
def group (limit : Nat) : (budget : Nat) → (field : UInt32) → Reader Unit
  | 0, _ => Reader.fail (.malformed (.groupsTooDeep limit))
  | budget + 1, field =>
    Reader.untilSome (groupRound (payload (group limit budget)) field) (consumes_groupRound _ _)

/-- Passes over the payload of a key, with at most `limit` groups open at once. -/
def field (limit : Nat) (key : Key) : Reader Unit :=
  payload (group limit limit) key

/-! ### Equations -/

theorem run_group_zero (limit : Nat) (f : UInt32) (bs : Bytes) :
    (group limit 0 f).run bs = (.error (.malformed (.groupsTooDeep limit)), bs) := rfl

theorem run_group_succ (limit budget : Nat) (f : UInt32) (bs : Bytes) :
    (group limit (budget + 1) f).run bs =
      match (groupRound (payload (group limit budget)) f).run bs with
      | (.ok (some done), rest) => (.ok done, rest)
      | (.ok none, rest) => (group limit (budget + 1) f).run rest
      | (.error e, rest) => (.error e, rest) := by
  rw [group, Reader.run_untilSome]
  rcases (groupRound (payload (group limit budget)) f).run bs with ⟨_ | _ | _, rest⟩ <;> rfl

end Skip
end WireFormat
