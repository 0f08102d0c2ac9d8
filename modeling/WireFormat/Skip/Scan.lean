/-
# Scanning with a stack

The payload of a key can also be passed over in one pass that keeps the fields
of the open groups, innermost first. A start key puts its field on the stack if
there is room for one more, an end key takes the top off if it is its own field,
and any other payload leaves the stack as it is. The scan is over when no group
is open.

Key definitions: `Skip.Scan.step`, `Skip.Scan.round`, `Skip.Scan.close`,
`Skip.Scan.field`.
Key theorems: `Skip.Scan.run_close_nil`, `Skip.Scan.run_close_cons`.
-/
import WireFormat.Skip

namespace WireFormat
namespace Skip
namespace Scan

/-- What a key and its payload do to the fields of the open groups, of which
there may be `limit`. -/
def step (limit : Nat) (opened : List UInt32) (key : Key) : Reader (List UInt32) :=
  match key.type with
  | .varint => Varint.read *> pure opened
  | .fixed64 => Payload.fixed64 *> pure opened
  | .lengthDelimited => Payload.delimited *> pure opened
  | .fixed32 => Payload.fixed32 *> pure opened
  | .startGroup =>
    if opened.length < limit then
      pure (key.field :: opened)
    else
      Reader.fail (.malformed (.groupsTooDeep limit))
  | .endGroup =>
    match opened with
    | [] => Reader.fail (.malformed (.unexpectedEndGroup key.field))
    | top :: outer =>
      if key.field = top then
        pure outer
      else
        Reader.fail (.malformed (.mismatchedEndGroup key.field top))

/-- Reads the next key and does what it asks for. -/
def round (limit : Nat) (opened : List UInt32) : Reader (List UInt32) :=
  Key.read >>= step limit opened

theorem consumes_round (limit : Nat) (opened : List UInt32) : (round limit opened).Consumes :=
  Key.consumes_read.bind _

/-- Rounds on the bytes until no group is open. -/
def runClose (limit : Nat) (opened : List UInt32) (bs : Bytes) : Except Error Unit × Bytes :=
  if opened = [] then (.ok (), bs)
  else
    match h : (round limit opened).run bs with
    | (.ok opened', rest) =>
      have : rest.length < bs.length := consumes_round limit opened bs opened' rest h
      runClose limit opened' rest
    | (.error e, rest) => (.error e, rest)
termination_by bs.length

theorem runClose_suffix (limit : Nat) (opened : List UInt32) (bs : Bytes) :
    (runClose limit opened bs).2 <:+ bs := by
  fun_induction runClose limit opened bs with
  | case1 bs => exact List.suffix_rfl
  | case2 opened bs _ opened' rest h _ ih =>
    exact ih.trans (by simpa [h] using (round limit opened).rest_suffix bs)
  | case3 opened bs _ e rest h => simpa [h] using (round limit opened).rest_suffix bs

/-- Passes over what is left of the open groups. -/
def close (limit : Nat) (opened : List UInt32) : Reader Unit :=
  ⟨runClose limit opened, runClose_suffix limit opened⟩

/-- Passes over the payload of a key, with at most `limit` groups open at once. -/
def field (limit : Nat) (key : Key) : Reader Unit :=
  step limit [] key >>= close limit

/-! ### Equations -/

theorem run_close_nil (limit : Nat) (bs : Bytes) : (close limit []).run bs = (.ok (), bs) := by
  show runClose limit [] bs = _
  rw [runClose, if_pos rfl]

theorem run_close_cons (limit : Nat) (top : UInt32) (outer : List UInt32) (bs : Bytes) :
    (close limit (top :: outer)).run bs = (round limit (top :: outer) >>= close limit).run bs := by
  show runClose limit (top :: outer) bs = _
  rw [runClose, if_neg (List.cons_ne_nil top outer), Reader.run_bind]
  split <;> simp_all [close]

end Scan
end Skip
end WireFormat
