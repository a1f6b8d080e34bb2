import TildeMerge.Data.Value

namespace TildeMerge.Json

open Number

/-- Whether digits are those of a JSON number before the point: a leading zero stands alone. -/
def isWhole : Text → Bool
  | [] => false
  | ['0'] => true
  | c :: _ => c != '0'

/-- Puts digits behind a significand for as long as it stays below `2 ^ 64`. Also gives the digits
that are left over. -/
def appendDigits (significand : Nat) : Text → Nat × Text
  | [] => (significand, [])
  | c :: t =>
    let longer := 10 * significand + digitValue c
    if longer < Nat.pow 2 64 then appendDigits longer t else (significand, c :: t)

/-- The decimal number of a numeral with as many of its digits as 64 bits hold. Digits that are left
over count before the point, but not behind it. -/
def shortDecimal (n : Numeral) : Decimal :=
  let fraction := n.fraction.getD []
  let (significand, above) := appendDigits 0 n.whole
  let (significand, below) := appendDigits significand fraction
  ⟨n.negative, significand, n.power + above.length - (fraction.length - below.length)⟩

def maxPower : Nat := 308

def powerOfTen (n : Nat) : Option Binary64 :=
  Binary64.ofScaled false (Nat.pow 10 n) 1 0

def divideOften (x : Binary64) : Nat → Option Binary64
  | 0 => some x
  | times + 1 => do
    if x.significand == 0 then return x
    divideOften (← x.div (← powerOfTen maxPower)) times

/-- The number that comes of a decimal number if its digits are rounded and then multiplied or divided
by powers of ten. Every step rounds, so it need not be the nearest one; none if it is too great. -/
def scaled (d : Decimal) : Option Binary64 := do
  let x ← Binary64.ofScaled d.negative d.digits 1 0
  let power := d.exponent.natAbs
  if 0 ≤ d.exponent then
    if maxPower < power then
      if x.significand == 0 then return x else none
    x.mul (← powerOfTen power)
  else
    let x ← divideOften x ((power - 1) / maxPower)
    x.div (← powerOfTen ((power - 1) % maxPower + 1))

/-- The value of a number. An integer beyond 64 bits is a real number, and so is minus zero; a
number too great for a real is refused. -/
def readNumber (t : Text) : Option Value := do
  let n ← Numeral.read t
  guard (isWhole n.whole && n.fraction != some [] && n.hasExponentDigits)
  let magnitude := ofDigits n.whole
  let integer : Int := if n.negative then -magnitude else magnitude
  if n.isInteger && Value.inIntRange integer && !(n.negative && magnitude == 0) then
    return .int integer
  else
    return .real (← scaled (shortDecimal n))

end TildeMerge.Json
