import TildeMerge.Text.Basic

namespace TildeMerge.Number

def digitValue (c : Char) : Nat :=
  c.toNat - '0'.toNat

def hexValue (c : Char) : Option Nat :=
  if c.isDigit then some (c.toNat - '0'.toNat)
  else if 'a' ≤ c && c ≤ 'f' then some (c.toNat - 'a'.toNat + 10)
  else if 'A' ≤ c && c ≤ 'F' then some (c.toNat - 'A'.toNat + 10)
  else none

def ofDigits (digits : Text) : Nat :=
  digits.foldl (fun n c ↦ 10 * n + digitValue c) 0

/-- The number that digits of a base up to sixteen stand for, most significant first; none without a
digit, or if one of them is none of the base. -/
def readDigits (base : Nat) (digits : Text) : Option Nat := do
  guard (!digits.isEmpty)
  digits.foldlM (fun n d ↦ ((hexValue d).filter (· < base)).map (base * n + ·)) 0

def toDigits (n : Nat) : Text :=
  Nat.toDigits 10 n

def intText : Int → Text
  | .ofNat n => toDigits n
  | .negSucc n => '-' :: toDigits (n + 1)

end TildeMerge.Number
