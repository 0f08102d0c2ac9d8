/-
# Settings

A setting is a value of a configuration file: nothing, a truth value, a number,
a text, a list or a table of settings. A number written without a point and
without an exponent that fits into sixty-four bits, signed or unsigned, is an
integer, unless it is minus zero; all other numbers are floating point. What is
wrong with a setting is said by naming what stands there and what should.

Key definitions: `Setting`, `Setting.Numeral`, `Setting.ofNumeral`,
`Setting.describe`, `Setting.floatLayout`.
-/
import WireFormat.Decimal
import WireFormat.Text.Quoted

namespace WireFormat

/-- A value of a configuration file. -/
inductive Setting where
  | null
  | bool (b : Bool)
  | integer (n : Int)
  | float (x : Float)
  | text (s : String)
  | list (items : List Setting)
  | table (entries : List (String × Setting))
  deriving Inhabited

namespace Setting

/-- A number as it is written. -/
structure Numeral where
  negative : Bool
  /-- All digits, those after the point included. -/
  digits : Nat
  /-- The power of ten that the digits count, if there is a point or an exponent. -/
  scale? : Option Int
  deriving DecidableEq

namespace Numeral

/-- The whole number of the digits, with the sign. -/
def whole (n : Numeral) : Int := if n.negative then -n.digits else n.digits

/-- Whether the number is written as an integer: no point, no exponent and no
sign before a zero. -/
def isInteger (n : Numeral) : Bool :=
  n.scale?.isNone && !(n.negative && n.digits = 0) &&
    Int64.minValue.toInt ≤ n.whole && n.whole < UInt64.size

/-- The floating point number nearest to the numeral. -/
def toFloat (n : Numeral) : Float :=
  let scale := n.scale?.getD 0
  let magnitude := Float.ofScientific n.digits (scale < 0) scale.natAbs
  if n.negative then -magnitude else magnitude

end Numeral

/-- A number as a setting. -/
def ofNumeral (n : Numeral) : Setting :=
  if n.isInteger then integer n.whole else float n.toFloat

/-- Floating point numbers show up to sixteen places before the point and four
zeros after it. -/
def floatLayout : Decimal.Layout := ⟨-4, 16⟩

/-- The text of a finite floating point number. -/
def floatText (x : Float) : String :=
  let bits := x.toBits
  let sign := if bits >>> 63 = 1 then "-" else ""
  let magnitude := Binary.ofBits bits
  if magnitude.mantissa = 0 then s!"{sign}0.0"
  else s!"{sign}{magnitude.shortest.render floatLayout}"

/-- What a setting is called in an error. -/
def describe : Setting → String
  | null => "null"
  | bool b => if b then "boolean `true`" else "boolean `false`"
  | integer n => s!"integer `{n}`"
  | float x => s!"floating point `{floatText x}`"
  | text s => s!"string {Text.quote s}"
  | list _ => "sequence"
  | table _ => "map"

end Setting
end WireFormat
