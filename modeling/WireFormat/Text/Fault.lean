/-
# UTF-8 faults

A lead byte fixes the ranges that the bytes after it must fall in, so a scan
only keeps the ranges still owed. It stops at the first byte that none of them
allows, and says where the sequence that broke off began and how many of its
bytes were good.

Key definitions: `Text.Fault`, `Text.Fault.message`, `Text.owed`,
`Text.faultFrom`, `Text.fault?`.
-/
import WireFormat.Bytes

namespace WireFormat
namespace Text

/-- What is wrong with a byte string that is not UTF-8, and where. -/
inductive Fault where
  /-- The `length` bytes from `index` on begin no scalar value that the next byte continues. -/
  | invalid (index length : Nat)
  /-- The input ends inside the sequence that starts at `index`. -/
  | incomplete (index : Nat)
  deriving DecidableEq

/-- The wording of a fault. -/
def Fault.message : Fault → String
  | invalid index length => s!"invalid utf-8 sequence of {length} bytes from index {index}"
  | incomplete index => s!"incomplete utf-8 byte sequence from index {index}"

/-- An inclusive range of bytes. -/
structure Span where
  low : UInt8
  high : UInt8

/-- Whether a byte lies in the range. -/
def Span.contains (span : Span) (b : UInt8) : Bool :=
  span.low ≤ b && b ≤ span.high

/-- The range of a continuation byte that nothing narrows. -/
def Span.tail : Span := ⟨0x80, 0xBF⟩

/-- The ranges owed after a lead byte, or none if no sequence starts with it.
The first range is narrowed where a longer form, a surrogate or a value above
the last scalar would start. -/
def owed (lead : UInt8) : Option (List Span) :=
  if lead < 0x80 then some []
  else if lead < 0xC2 then none
  else if lead < 0xE0 then some [.tail]
  else if lead < 0xF0 then
    some [⟨if lead = 0xE0 then 0xA0 else 0x80, if lead = 0xED then 0x9F else 0xBF⟩, .tail]
  else if lead < 0xF5 then
    some [⟨if lead = 0xF0 then 0x90 else 0x80, if lead = 0xF4 then 0x8F else 0xBF⟩, .tail, .tail]
  else none

/-- The first fault of the rest of a text, when the sequence that started at
`start` has had `seen` good bytes and still owes the given ranges. -/
def faultFrom (start seen : Nat) : List Span → Bytes → Option Fault
  | [], [] => none
  | _ :: _, [] => some (.incomplete start)
  | [], b :: bs =>
    match owed b with
    | some spans => faultFrom (start + seen) 1 spans bs
    | none => some (.invalid (start + seen) 1)
  | span :: spans, b :: bs =>
    if span.contains b then faultFrom start (seen + 1) spans bs
    else some (.invalid start seen)

/-- The first fault of a byte string, none if it is UTF-8. -/
def fault? (bs : Bytes) : Option Fault := faultFrom 0 0 [] bs

end Text
end WireFormat
