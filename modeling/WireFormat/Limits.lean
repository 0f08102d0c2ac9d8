/-
# Limits

Input from outside is held to two limits: how long a message may be, and how
many groups may be open at once.

Key definitions: `Limits`, `Limits.checkLength`.
-/
import WireFormat.Error

namespace WireFormat

/-- What an input may ask of a decoder. -/
structure Limits where
  /-- The most bytes of a message. -/
  maxMessageLength : UInt64 := 67108864
  /-- The most groups open at once. -/
  maxGroupDepth : UInt32 := 100
  deriving DecidableEq

namespace Limits

/-- The limits where nothing else is said. -/
def standard : Limits := {}

/-- Checks the length of a message. -/
def checkLength (limits : Limits) (length : Nat) : Except Error Unit :=
  if limits.maxMessageLength.toNat < length then
    .error (.malformed (.messageTooLong length limits.maxMessageLength.toNat))
  else .ok ()

theorem checkLength_eq_ok_iff {limits : Limits} {length : Nat} :
    limits.checkLength length = .ok () ↔ length ≤ limits.maxMessageLength.toNat := by
  unfold checkLength
  split <;> simp <;> omega

end Limits
end WireFormat
