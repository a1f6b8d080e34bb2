import TildeMerge.Number.Digit

namespace TildeMerge.Number

/-- The decimal number `digits * 10 ^ exponent`, with a sign that zero may have too. -/
structure Decimal where
  negative : Bool
  digits : Nat
  exponent : Int
  deriving DecidableEq, Repr

/-- The parts of a numeral. The fraction is absent if no point is written, and the exponent if no
`e` is; each may be written with no digit. -/
structure Numeral where
  negative : Bool
  whole : Text
  fraction : Option Text
  exponent : Option (Bool × Text)
  deriving DecidableEq, Repr

namespace Numeral

def readSign : Text → Bool × Text
  | '-' :: t => (true, t)
  | '+' :: t => (false, t)
  | t => (false, t)

def readExponent : Text → Option (Option (Bool × Text))
  | [] => some none
  | c :: t =>
    if c == 'e' || c == 'E' then
      let (negative, digits) := readSign t
      if digits.all Char.isDigit then some (some (negative, digits)) else none
    else none

def readUnsigned (negative : Bool) (t : Text) : Option Numeral := do
  let whole := t.takeWhile Char.isDigit
  match t.dropWhile Char.isDigit with
  | '.' :: rest =>
    let fraction := rest.takeWhile Char.isDigit
    let exponent ← readExponent (rest.dropWhile Char.isDigit)
    return ⟨negative, whole, some fraction, exponent⟩
  | rest =>
    let exponent ← readExponent rest
    return ⟨negative, whole, none, exponent⟩

def read : Text → Option Numeral
  | '-' :: t => readUnsigned true t
  | t => readUnsigned false t

def hasExponentDigits (n : Numeral) : Bool :=
  match n.exponent with
  | none => true
  | some (_, digits) => !digits.isEmpty

def isInteger (n : Numeral) : Bool :=
  n.fraction.isNone && n.exponent.isNone

def power (n : Numeral) : Int :=
  match n.exponent with
  | none => 0
  | some (true, digits) => -(ofDigits digits : Int)
  | some (false, digits) => ofDigits digits

def toDecimal (n : Numeral) : Decimal :=
  let fraction := n.fraction.getD []
  ⟨n.negative, ofDigits (n.whole ++ fraction), n.power - fraction.length⟩

end Numeral

end TildeMerge.Number
