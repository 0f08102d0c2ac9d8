/-
# Byte strings

Everything on the wire is a byte string. It is held as a list: a reader takes
bytes off the front, a writer appends them at the end, and what was read or
written is a concatenation.

Key definitions: `Bytes`.
-/

namespace WireFormat

/-- A byte string, first byte first. -/
abbrev Bytes := List UInt8

theorem Bytes.toNat_ofNat_of_lt {n : Nat} (h : n < 256) : (UInt8.ofNat n).toNat = n :=
  UInt8.toNat_ofNat_of_lt' h

end WireFormat
