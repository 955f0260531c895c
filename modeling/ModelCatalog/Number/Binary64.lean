import ModelCatalog.Number.Digits

/-!
# Binary64 numbers

The values of the IEEE 754 format binary64, held exactly: a finite magnitude is `significand * 2 ^
scale` units, where a unit is the least positive value, `2 ^ -1074`. Arithmetic stays in the natural
numbers. A ratio is rounded to the nearest value, a tie to the even significand, and everything
beyond the largest finite value becomes infinite.
-/

namespace ModelCatalog.Number

/-- A value of the format binary64. Both signs of zero are values; there is one not-a-number. -/
inductive Binary64 where
  | nan
  | infinite (negative : Bool)
  | finite (negative : Bool) (significand scale : Nat)
deriving DecidableEq, Repr

namespace Binary64

/-- One more than the largest significand. -/
def significandLimit : Nat := Nat.pow 2 53

/-- The largest scale of a finite value. -/
def maxScale : Nat := 2045

/-- The units in one: the least positive value is `1 / unitsPerOne`. -/
def unitsPerOne : Nat := Nat.pow 2 1074

/-- Zero with a sign. -/
def zero (negative : Bool) : Binary64 := .finite negative 0 0

/-- The magnitude of a finite value in units. -/
def units (significand scale : Nat) : Nat := significand * Nat.pow 2 scale

/-- The quotient rounded to the nearest natural number, a tie to the even one. -/
def roundDivide (numerator denominator : Nat) : Nat :=
  let quotient := numerator / denominator
  let twice := 2 * (numerator % denominator)
  if twice < denominator then quotient
  else if denominator < twice then quotient + 1
  else if quotient % 2 = 0 then quotient else quotient + 1

/-- The value nearest to `numerator / denominator` with the given sign. -/
def ofRatio (negative : Bool) (numerator denominator : Nat) : Binary64 :=
  let numerator := numerator * unitsPerOne
  let scale := Nat.log2 (numerator / denominator) - 52
  let significand := roundDivide numerator (denominator * Nat.pow 2 scale)
  let (significand, scale) :=
    if significand = significandLimit then (Nat.pow 2 52, scale + 1) else (significand, scale)
  if scale ≤ maxScale then .finite negative significand scale else .infinite negative

/-- The value nearest to `digits * 10 ^ exponent` with the given sign. The two outer cases keep the
    powers small: beyond them the value is infinite or zero. -/
def ofDecimal (negative : Bool) (digits : Nat) (exponent : Int) : Binary64 :=
  if digits = 0 then zero negative
  else if 310 < digitCount digits + exponent then .infinite negative
  else if digitCount digits + exponent < -330 then zero negative
  else if 0 ≤ exponent then ofRatio negative (digits * Nat.pow 10 exponent.toNat) 1
  else ofRatio negative digits (Nat.pow 10 (-exponent).toNat)

/-- The position of a value on the number line, in units: the two zeros share theirs, the
    infinities lie beyond every finite value, and not-a-number has none. -/
def position? : Binary64 → Option Int
  | .nan => none
  | .infinite negative => some (signed negative (units significandLimit (maxScale + 1)))
  | .finite negative significand scale => some (signed negative (units significand scale))

/-- The order of two values, unless one of them is not a number. -/
def compare? (x y : Binary64) : Option Ordering := do
  return compare (← x.position?) (← y.position?)

/-! ## Literals -/

/-- The exponent after the digits of a literal: nothing, or `e`, an optional sign and digits. -/
def readExponent : List Char → Option Int
  | [] => some 0
  | mark :: word =>
    let (negative, magnitude) := splitSign word
    if mark.toLower = 'e' ∧ magnitude ≠ [] ∧ magnitude.all Char.isDigit then
      some (signed negative (ofDigits magnitude))
    else none

/-- The fraction after the digits of a literal and the rest behind it. -/
def splitFraction : List Char → List Char × List Char
  | '.' :: word => (word.takeWhile Char.isDigit, word.dropWhile Char.isDigit)
  | word => ([], word)

/-- The value of a literal without its sign: a name of a special value in any case, or digits with
    at most one point, at least one digit on either side of it, and an optional exponent. -/
def readMagnitude (negative : Bool) (word : List Char) : Option Binary64 :=
  let name := word.map Char.toLower
  if name = "inf".toList ∨ name = "infinity".toList then some (.infinite negative)
  else if name = "nan".toList then some .nan
  else
    let whole := word.takeWhile Char.isDigit
    let (fraction, rest) := splitFraction (word.dropWhile Char.isDigit)
    if whole ++ fraction = [] then none
    else do
      let exponent ← readExponent rest
      return ofDecimal negative (ofDigits (whole ++ fraction)) (exponent - fraction.length)

/-- The value of a floating-point literal. -/
def read? (word : List Char) : Option Binary64 :=
  let (negative, magnitude) := splitSign word
  readMagnitude negative magnitude

end Binary64

end ModelCatalog.Number
