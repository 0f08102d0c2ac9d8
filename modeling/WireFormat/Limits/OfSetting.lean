/-
# Limits from settings

Limits are written as a table of names and values, in any order, or as a list
of values in the order of the fields. What is left out has its standard value.
The first thing that is wrong is reported: in a table a name that is not known,
then a name given before, then a value; in a list a value, then the number of
values.

Key definitions: `Limits.SettingError`, `Limits.SettingError.message`,
`Limits.ofSetting`.
-/
import WireFormat.Limits
import WireFormat.Setting

namespace WireFormat
namespace Limits

/-- What a setting should have been. -/
inductive Expected where
  | messageLength
  | groupDepth
  | limits

/-- Why a setting gives no limits. -/
inductive SettingError where
  /-- The table has a name that no limit has. -/
  | unknownName (name : String)
  /-- The table gives a limit twice. -/
  | duplicateName (name : String)
  /-- The setting is of another kind. -/
  | wrongType (found : Setting) (expected : Expected)
  /-- The number is too small or too large. -/
  | outOfRange (n : Int) (expected : Expected)
  /-- The list has more values than there are limits. -/
  | tooManyValues (count : Nat)

/-- The name of the longest message in a table. -/
def messageLengthName : String := "max_message_len"

/-- The name of the deepest nesting in a table. -/
def groupDepthName : String := "max_group_depth"

/-- What should have been, in words. -/
def Expected.phrase : Expected → String
  | messageLength => "usize"
  | groupDepth => "u32"
  | limits => "struct DecodeLimits"

/-- The wording of an error. -/
def SettingError.message : SettingError → String
  | unknownName name =>
    s!"unknown field `{name}`, expected `{messageLengthName}` or `{groupDepthName}`"
  | duplicateName name => s!"duplicate field `{name}`"
  | wrongType found expected => s!"invalid type: {found.describe}, expected {expected.phrase}"
  | outOfRange n expected => s!"invalid value: integer `{n}`, expected {expected.phrase}"
  | tooManyValues count => s!"invalid length {count}, expected fewer elements in array"

/-- A whole number below `bound`. -/
def natOfSetting (expected : Expected) (bound : Nat) : Setting → Except SettingError Nat
  | .integer n =>
    if 0 ≤ n && n < bound then .ok n.toNat else .error (.outOfRange n expected)
  | found => .error (.wrongType found expected)

/-- The longest message, from its setting. -/
def messageLengthOfSetting (setting : Setting) : Except SettingError UInt64 :=
  UInt64.ofNat <$> natOfSetting .messageLength UInt64.size setting

/-- The deepest nesting, from its setting. -/
def groupDepthOfSetting (setting : Setting) : Except SettingError UInt32 :=
  UInt32.ofNat <$> natOfSetting .groupDepth UInt32.size setting

/-- Limits of which not all are given yet. -/
structure Partial where
  messageLength? : Option UInt64 := none
  groupDepth? : Option UInt32 := none

/-- The limits given, and the standard ones for the others. -/
def Partial.complete (p : Partial) : Limits where
  maxMessageLength := p.messageLength?.getD standard.maxMessageLength
  maxGroupDepth := p.groupDepth?.getD standard.maxGroupDepth

/-- One more entry of a table. -/
def Partial.add (p : Partial) (name : String) (setting : Setting) : Except SettingError Partial :=
  if name = messageLengthName then
    if p.messageLength?.isSome then .error (.duplicateName name)
    else do
      let length ← messageLengthOfSetting setting
      return { p with messageLength? := some length }
  else if name = groupDepthName then
    if p.groupDepth?.isSome then .error (.duplicateName name)
    else do
      let depth ← groupDepthOfSetting setting
      return { p with groupDepth? := some depth }
  else .error (.unknownName name)

/-- Limits from the entries of a table, in order. -/
def ofTable (entries : List (String × Setting)) : Except SettingError Limits := do
  let p ← entries.foldlM (fun p (name, setting) => p.add name setting) ({} : Partial)
  return p.complete

/-- Limits from a list of values. -/
def ofList : List Setting → Except SettingError Limits
  | [] => return standard
  | [length] => do
    let length ← messageLengthOfSetting length
    return { standard with maxMessageLength := length }
  | length :: depth :: others => do
    let length ← messageLengthOfSetting length
    let depth ← groupDepthOfSetting depth
    if others.isEmpty then
      return ⟨length, depth⟩
    else
      throw (.tooManyValues (others.length + 2))

/-- Limits from a setting. -/
def ofSetting : Setting → Except SettingError Limits
  | .table entries => ofTable entries
  | .list items => ofList items
  | found => .error (.wrongType found .limits)

end Limits
end WireFormat
