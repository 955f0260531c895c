import ModelCatalog.Number.Binary64
import ModelCatalog.Number.Integer

/-!
# Shortest decimals

A finite binary64 value is written with the fewest digits that read back as that value, and among
those with the digits nearest to it; of two equally near the larger is taken. The search is exact:
a decimal reads back when it lies in the interval of reals that round to the value, whose ends
belong to it when the significand is even.
-/

namespace ModelCatalog.Number

namespace Binary64

/-- The reals that round to a value, measured in quarters of a unit. -/
structure Interval where
  low : Nat
  middle : Nat
  high : Nat
  closed : Bool

/-- The interval of a positive finite value. Below a power of two the values lie twice as dense, so
    the interval reaches half as far down. -/
def Interval.of (significand scale : Nat) : Interval where
  low := (if significand = Nat.pow 2 52 ∧ scale ≠ 0 then 4 * significand - 1 else 4 * significand - 2) *
    Nat.pow 2 scale
  middle := 4 * significand * Nat.pow 2 scale
  high := (4 * significand + 2) * Nat.pow 2 scale
  closed := significand % 2 = 0

/-- The quarters of a unit in one. -/
def quartersPerOne : Nat := 4 * unitsPerOne

/-- The interval measured in quarters of a unit times `factor`. -/
def Interval.stretch (interval : Interval) (factor : Nat) : Interval :=
  { interval with
    low := interval.low * factor
    middle := interval.middle * factor
    high := interval.high * factor }

/-- A point lies in the interval. -/
def Interval.contains (interval : Interval) (point : Nat) : Bool :=
  if interval.closed then interval.low ≤ point && point ≤ interval.high
  else interval.low < point && point < interval.high

/-- Of the multiples of `step`, the one in the interval that is nearest to its middle. -/
def Interval.nearest? (interval : Interval) (step : Nat) : Option Nat :=
  let below := interval.middle / step
  let above := below + 1
  match interval.contains (below * step), interval.contains (above * step) with
  | true, true =>
    if interval.middle - below * step < above * step - interval.middle then some below else some above
  | true, false => some below
  | false, true => some above
  | false, false => none

/-- The number `digits * 10 ^ exponent` in the interval that is nearest to its middle. -/
def Interval.decimal? (interval : Interval) (exponent : Int) : Option Nat :=
  if 0 ≤ exponent then interval.nearest? (quartersPerOne * Nat.pow 10 exponent.toNat)
  else (interval.stretch (Nat.pow 10 (-exponent).toNat)).nearest? quartersPerOne

/-- How many digits the value has before its decimal point; not positive when the value is less
    than one tenth. -/
def Interval.magnitude (interval : Interval) : Int :=
  digitCount (interval.middle * Nat.pow 10 400 / quartersPerOne) - 400

/-- Digits with the position of the decimal point among them: `point` digits stand before it. -/
structure Decimal where
  digits : List Char
  point : Int
deriving DecidableEq, Repr

/-- The digits without zeros at the end. -/
def dropFinalZeros (digits : List Char) : List Char := (digits.reverse.dropWhile (· == '0')).reverse

/-- The fewest digits that read back as a positive finite value. Seventeen always suffice. -/
def shortest (significand scale : Nat) : Decimal :=
  let interval := Interval.of significand scale
  let magnitude := interval.magnitude
  let hit := (List.range' 1 17).findSome? fun (count : Nat) => do
    let value ← interval.decimal? (magnitude - count)
    let found := digits value
    return { digits := dropFinalZeros found, point := found.length + (magnitude - count) : Decimal }
  hit.getD { digits := ['0'], point := 1 }

/-! ## Layouts -/

/-- How a finite value is laid out. -/
structure Layout where
  /-- Whether a value with this many digits before the point is written without an exponent. -/
  positional : Int → Bool
  /-- Whether a value without a fraction keeps the point and a zero. -/
  keepsPoint : Bool

/-- Values are marked as such: by a point from `0.0001` up to below `10 ^ 16`, by an exponent
    elsewhere. -/
def Layout.marked : Layout := ⟨fun point => -3 ≤ point && point ≤ 16, true⟩

/-- Values are written without an exponent, and whole ones without a point. -/
def Layout.plain : Layout := ⟨fun _ => true, false⟩

/-- Digits without an exponent. -/
def Decimal.positional (keepsPoint : Bool) (decimal : Decimal) : List Char :=
  let ⟨digits, point⟩ := decimal
  let count := point.toNat
  if point ≤ 0 then '0' :: '.' :: List.replicate (-point).toNat '0' ++ digits
  else if digits.length ≤ count then
    digits ++ List.replicate (count - digits.length) '0' ++ if keepsPoint then ['.', '0'] else []
  else digits.take count ++ '.' :: digits.drop count

/-- Digits with one of them before the point, and an exponent. -/
def Decimal.scientific (decimal : Decimal) : List Char :=
  let exponent := (showInteger (decimal.point - 1)).toList
  match decimal.digits with
  | [] => 'e' :: exponent
  | [digit] => digit :: 'e' :: exponent
  | digit :: rest => digit :: '.' :: rest ++ 'e' :: exponent

/-- The digits of a finite magnitude; zero has one. -/
def decimal (significand scale : Nat) : Decimal :=
  if significand = 0 then { digits := ['0'], point := 1 } else shortest significand scale

/-- A value in a layout. Not-a-number has no sign, and zero keeps its own. -/
def render (layout : Layout) : Binary64 → String
  | .nan => "NaN"
  | .infinite negative => if negative then "-inf" else "inf"
  | .finite negative significand scale =>
    let decimal := decimal significand scale
    let body :=
      if layout.positional decimal.point then decimal.positional layout.keepsPoint
      else decimal.scientific
    String.ofList (if negative then '-' :: body else body)

end Binary64

end ModelCatalog.Number
