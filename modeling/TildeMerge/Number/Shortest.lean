import TildeMerge.Number.Binary64

namespace TildeMerge.Number

inductive Tie where
  | toEven
  | up
  deriving DecidableEq, Repr

/-- Digits and the place of the point: the number is `0.digits * 10 ^ point`. -/
structure Digits where
  digits : Text
  point : Int
  deriving DecidableEq, Repr

/-- The reals that round to a positive number, as quotients with one denominator. The ends belong
to them exactly if the significand is even. -/
structure Interval where
  low : Nat
  value : Nat
  high : Nat
  den : Nat
  closed : Bool

/-- The interval of a positive number. Below a power of two the neighbour is half as far away. -/
def Interval.of (x : Binary64) : Interval :=
  let m := x.significand
  let scale := Nat.pow 2 (x.exponent - 2).toNat
  let below := if m == Nat.pow 2 52 && Binary64.minExponent < x.exponent then 1 else 2
  { low := (4 * m - below) * scale
    value := 4 * m * scale
    high := (4 * m + 2) * scale
    den := Nat.pow 2 (2 - x.exponent).toNat
    closed := m % 2 == 0 }

def leadingZeros (num den : Nat) : Nat → Nat
  | 0 => 0
  | fuel + 1 => if num * 10 < den then leadingZeros (num * 10) den fuel + 1 else 0

/-- The place of the point of a positive quotient. Numbers of the format have at most 323 zeros
after the point. -/
def pointOf (num den : Nat) : Int :=
  if den ≤ num then (toDigits (num / den)).length else -(leadingZeros num den 323 : Int)

/-- The multiple of `10 ^ (point - count)` that is nearest to the value among those in the
interval, if there is one. -/
def onGrid (tie : Tie) (i : Interval) (point : Int) (count : Nat) : Option Nat :=
  let up := Nat.pow 10 (count - point).toNat
  let unit := i.den * Nat.pow 10 (point - count).toNat
  let lower := i.value * up / unit
  let rest := i.value * up % unit
  let inside (n : Nat) : Bool :=
    if i.closed then i.low * up ≤ n * unit && n * unit ≤ i.high * up
    else i.low * up < n * unit && n * unit < i.high * up
  match inside lower, inside (lower + 1) with
  | false, false => none
  | true, false => some lower
  | false, true => some (lower + 1)
  | true, true =>
    if 2 * rest < unit then some lower
    else if unit < 2 * rest then some (lower + 1)
    else match tie with
      | .toEven => some (lower + lower % 2)
      | .up => some (lower + 1)

/-- Tries the given number of digits and more. Seventeen digits always suffice. -/
def searchGrid (tie : Tie) (i : Interval) (point : Int) (count : Nat) : Nat → Nat × Nat
  | 0 => (i.value / i.den, count)
  | fuel + 1 =>
    match onGrid tie i point count with
    | some n => (n, count)
    | none => searchGrid tie i point (count + 1) fuel

/-- The shortest digits of a positive number, with no zero at the end. -/
def shortest (tie : Tie) (x : Binary64) : Digits :=
  let i := Interval.of x
  let point := pointOf i.value i.den
  let (n, count) := searchGrid tie i point 1 17
  let digits := toDigits n
  ⟨(digits.reverse.dropWhile (· == '0')).reverse, point + digits.length - count⟩

end TildeMerge.Number
