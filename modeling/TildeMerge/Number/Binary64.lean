import TildeMerge.Number.Numeral

namespace TildeMerge.Number

/-- The number `significand * 2 ^ exponent` with a sign. In a number that `ofDecimal` gives, the
significand is below `2 ^ 53`, and it is at least `2 ^ 52` unless the exponent is the least one. -/
structure Binary64 where
  negative : Bool
  significand : Nat
  exponent : Int
  deriving DecidableEq, Repr

namespace Binary64

def minExponent : Int := -1074

def maxExponent : Int := 971

/-- The quotient rounded to the nearest integer, to the even one if two are equally near. -/
def roundDiv (num den : Nat) : Nat :=
  let q := num / den
  let r := num % den
  if 2 * r < den then q
  else if den < 2 * r then q + 1
  else q + q % 2

def inUnits (num den : Nat) (exponent : Int) : Nat :=
  roundDiv (num * Nat.pow 2 (-exponent).toNat) (den * Nat.pow 2 exponent.toNat)

/-- The number nearest to a positive quotient; none if that is beyond the greatest number. -/
def ofQuotient (negative : Bool) (num den : Nat) : Option Binary64 :=
  let low : Int := (Nat.log2 num : Int) - Nat.log2 den - 53
  let fits (e : Int) : Bool :=
    num * Nat.pow 2 (-e).toNat < Nat.pow 2 53 * (den * Nat.pow 2 e.toNat)
  let exponent := max minExponent (if fits low then low else low + 1)
  let significand := inUnits num den exponent
  let (significand, exponent) :=
    if significand == Nat.pow 2 53 then (Nat.pow 2 52, exponent + 1) else (significand, exponent)
  if maxExponent < exponent then none else some ⟨negative, significand, exponent⟩

def ofScaled (negative : Bool) (num den : Nat) (exponent : Int) : Option Binary64 :=
  if num == 0 then some ⟨negative, 0, minExponent⟩
  else ofQuotient negative (num * Nat.pow 2 exponent.toNat) (den * Nat.pow 2 (-exponent).toNat)

def mul (x y : Binary64) : Option Binary64 :=
  ofScaled (x.negative != y.negative) (x.significand * y.significand) 1 (x.exponent + y.exponent)

def div (x y : Binary64) : Option Binary64 :=
  ofScaled (x.negative != y.negative) x.significand y.significand (x.exponent - y.exponent)

/-- The number nearest to a decimal number; none if that is beyond the greatest number. Numbers
whose leading digit is far out of range are settled without their exact quotient. -/
def ofDecimal (d : Decimal) : Option Binary64 :=
  let zero : Binary64 := ⟨d.negative, 0, minExponent⟩
  if d.digits == 0 then some zero
  else
    let top := (toDigits d.digits).length + d.exponent
    if top < -330 then some zero
    else if 310 < top then none
    else
      ofQuotient d.negative (d.digits * Nat.pow 10 d.exponent.toNat)
        (Nat.pow 10 (-d.exponent).toNat)

def isWhole (x : Binary64) : Bool :=
  x.significand % Nat.pow 2 (-x.exponent).toNat == 0

def wholePart (x : Binary64) : Nat :=
  x.significand * Nat.pow 2 x.exponent.toNat / Nat.pow 2 (-x.exponent).toNat

end Binary64

end TildeMerge.Number
