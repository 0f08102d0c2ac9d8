/-
# Shortest decimals

A binary floating point number stands for an interval of reals, those that
round to it. Its text has the fewest digits that name a point of the interval,
and of those the point nearest to the number. The search goes through the grids
`10 ^ k`, coarsest first: a grid has a point in the interval only if one of the
number's two neighbours on the grid is one. All of it is exact arithmetic on
naturals.

Key definitions: `Binary`, `Binary.neighbour?`, `Binary.shortest`, `Decimal`,
`Decimal.Layout`, `Decimal.render`.
-/

namespace WireFormat

/-- The number `digits * 10 ^ exponent`. -/
structure Decimal where
  digits : Nat
  exponent : Int
  deriving DecidableEq

/-- The number `mantissa * 2 ^ exponent`. -/
structure Binary where
  mantissa : Nat
  exponent : Int
  /-- The next smaller number is half as far away as the next larger one. -/
  narrow : Bool
  deriving DecidableEq

namespace Binary

/-- The magnitude of a finite double, from its bits. -/
def ofBits (bits : UInt64) : Binary :=
  let fraction := bits.toNat % Nat.pow 2 52
  let scale : Nat := bits.toNat / Nat.pow 2 52 % Nat.pow 2 11
  if scale = 0 then ⟨fraction, -1074, false⟩
  else ⟨fraction + Nat.pow 2 52, scale - 1075, fraction = 0 && 1 < scale⟩

/-- The point nearest to the number on the grid `10 ^ k`, among those that round
to the number; of two as near, the even one. The quarter of the last binary
place is the unit, so that the ends of the interval are whole. -/
def neighbour? (x : Binary) (k : Int) : Option Decimal :=
  let unit := Nat.pow 10 (-k).toNat * Nat.pow 2 (x.exponent - 2).toNat
  let grid := Nat.pow 10 k.toNat * Nat.pow 2 (2 - x.exponent).toNat
  let value := 4 * x.mantissa * unit
  let low := (4 * x.mantissa - if x.narrow then 1 else 2) * unit
  let high := (4 * x.mantissa + 2) * unit
  let inside (d : Nat) : Bool :=
    if x.mantissa % 2 = 0 then low ≤ d * grid && d * grid ≤ high
    else low < d * grid && d * grid < high
  let below := value / grid
  let above := below + 1
  let toBelow := value - below * grid
  let toAbove := above * grid - value
  match inside below, inside above with
  | true, true =>
    if toBelow < toAbove || (toBelow = toAbove && below % 2 = 0) then some ⟨below, k⟩
    else some ⟨above, k⟩
  | true, false => some ⟨below, k⟩
  | false, true => some ⟨above, k⟩
  | false, false => none

/-- The number written out, with all its digits. -/
def exact (x : Binary) : Decimal :=
  if 0 ≤ x.exponent then ⟨x.mantissa * Nat.pow 2 x.exponent.toNat, 0⟩
  else ⟨x.mantissa * Nat.pow 5 (-x.exponent).toNat, x.exponent⟩

/-- The fewest digits that round to the number, and of those the nearest. -/
def shortest (x : Binary) : Decimal :=
  ((List.range 640).findSome? fun i : Nat => x.neighbour? (310 - i)).getD x.exact

end Binary

namespace Decimal

/-- Which decimals are written without an exponent: those whose point stands
between `first` and `last` places after the first digit begins. -/
structure Layout where
  first : Int
  last : Int

/-- The text of a decimal. Whole numbers keep a zero after the point, and an
exponent always has a sign. -/
def render (layout : Layout) (d : Decimal) : String :=
  let digits := Nat.toDigits 10 d.digits
  let count := digits.length
  let point : Int := count + d.exponent
  let zeros (n : Int) : List Char := List.replicate n.toNat '0'
  if layout.first ≤ point && point ≤ layout.last then
    if point ≤ 0 then String.ofList ("0.".toList ++ zeros (-point) ++ digits)
    else if count ≤ point then String.ofList (digits ++ zeros (point - count) ++ ".0".toList)
    else String.ofList (digits.take point.toNat ++ '.' :: digits.drop point.toNat)
  else
    let mantissa :=
      match digits with
      | first :: rest => if rest.isEmpty then [first] else first :: '.' :: rest
      | [] => []
    let sign := if point ≤ 0 then "-" else "+"
    s!"{String.ofList mantissa}e{sign}{(point - 1).natAbs}"

end Decimal
end WireFormat
