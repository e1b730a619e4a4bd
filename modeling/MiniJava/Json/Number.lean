import MiniJava.Decimal

namespace MiniJava

/-!
# Numbers in JSON text

Digits alone that fit in 64 bits are an integer. Any other number is only
approximated: as many of its leading digits as fit in 64 bits make its
significand, and significand and power of ten are rounded to double precision
and multiplied. No reader asks for the approximation, but a number whose
approximation is infinite is refused.
-/

/-- What a number in a text stands for. -/
inductive Number where
  /-- An integer of 64 bits, written with digits only. -/
  | integer (value : Int)
  /-- A number with a finite approximation. -/
  | finite
  /-- A number whose approximation is infinite. -/
  | infinite
  deriving DecidableEq

/-- A significand and a power of ten. -/
structure Scaled where
  significand : Nat
  exponent : Int
  deriving DecidableEq

namespace Scaled

/-- How many binary digits a double holds. -/
def precision : Nat :=
  53

/--
The double nearest to a natural number; of two that are equally near, the even one.
-/
def nearest (value : Nat) : Nat :=
  let size := Nat.log2 value + 1
  if size ≤ precision then
    value
  else
    let unit := Nat.pow 2 (size - precision)
    let quotient := value / unit
    let twice := 2 * (value % unit)
    if unit < twice ∨ (unit = twice ∧ quotient % 2 = 1) then
      (quotient + 1) * unit
    else
      quotient * unit

/-- The least number that rounds to infinity. -/
def infinity : Nat :=
  Nat.pow 2 1024 - Nat.pow 2 970

/-- The greatest exponent whose power of ten is finite. -/
def maxExponent : Nat :=
  308

/-- Whether the approximation is infinite. -/
def isInfinite (scaled : Scaled) : Bool :=
  match scaled.exponent with
  | .ofNat exponent =>
      scaled.significand ≠ 0 &&
        (maxExponent < exponent ||
          infinity ≤ nearest scaled.significand * nearest (Nat.pow 10 exponent))
  | .negSucc _ => false

end Scaled

/-- A number as it is written. -/
structure Numeral where
  negative : Bool
  whole : List Char
  fraction? : Option (List Char)
  exponent? : Option Int
  deriving DecidableEq

namespace Numeral

/-- Significands and magnitudes stay below this number. -/
def wordLimit : Nat :=
  18446744073709551616

/--
Appends digits to a significand while they fit; gives it with the
digits that are left.
-/
def absorb : (significand : Nat) → List Char → Nat × List Char
  | significand, [] => (significand, [])
  | significand, digit :: rest =>
      let longer := 10 * significand + Decimal.digitValue digit
      if longer < wordLimit then
        absorb longer rest else (significand, digit :: rest)

/--
The leading digits as a significand, with the power of ten for the others.

Digits before the point that do not fit raise the exponent, and digits after it
that do fit lower it.
-/
def scaled (numeral : Numeral) : Scaled :=
  let (upper, passed) := absorb 0 numeral.whole
  let fraction := numeral.fraction?.getD []
  let (significand, unread) := absorb upper fraction
  { significand
    exponent :=
      numeral.exponent?.getD 0 + passed.length + unread.length - fraction.length }

/-- What the number stands for. Minus zero is no integer. -/
def value (numeral : Numeral) : Number :=
  match numeral.fraction?, numeral.exponent?, absorb 0 numeral.whole with
  | none, none, (magnitude, []) =>
      if !numeral.negative then
        .integer magnitude
      else if 0 < magnitude ∧ 2 * magnitude ≤ wordLimit then
        .integer (-(magnitude : Int))
      else
        .finite
  | _, _, _ => if numeral.scaled.isInfinite then .infinite else .finite

end Numeral

end MiniJava
