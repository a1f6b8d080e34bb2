import TildeMerge.Number.Shortest

namespace TildeMerge.Number

structure Layout where
  tie : Tie
  /-- The places of the point that are written without a power of ten; all if absent. -/
  positional : Option (Int × Int)
  marksWhole : Bool

namespace Layout

/-- Numbers in running text have no power of ten and no fraction of zero. -/
def plain : Layout := ⟨.up, none, false⟩

/-- Numbers inside a record keep a fraction, and have a power of ten below `0.00001` and from
`10 ^ 16` on. -/
def compact : Layout := ⟨.toEven, some (-4, 16), true⟩

def zeros (n : Nat) : Text :=
  List.replicate n '0'

def positionalText (layout : Layout) (d : Digits) : Text :=
  if d.point ≤ 0 then
    ['0', '.'] ++ zeros (-d.point).toNat ++ d.digits
  else
    let whole := d.point.toNat
    if d.digits.length ≤ whole then
      d.digits ++ zeros (whole - d.digits.length) ++
        (if layout.marksWhole then ['.', '0'] else [])
    else d.digits.take whole ++ '.' :: d.digits.drop whole

def scientificText (d : Digits) : Text :=
  let fraction := d.digits.drop 1
  let power := d.point - 1
  d.digits.take 1 ++ (if fraction.isEmpty then [] else '.' :: fraction) ++
    ['e', if power < 0 then '-' else '+'] ++ toDigits power.natAbs

def text (layout : Layout) (x : Binary64) : Text :=
  let sign := if x.negative then ['-'] else []
  if x.significand == 0 then
    sign ++ '0' :: (if layout.marksWhole then ['.', '0'] else [])
  else
    let d := shortest layout.tie x
    let isPositional :=
      match layout.positional with
      | none => true
      | some (least, greatest) => least ≤ d.point && d.point ≤ greatest
    sign ++ (if isPositional then layout.positionalText d else scientificText d)

end Layout

def wholeText (x : Binary64) : Text :=
  (if x.negative then ['-'] else []) ++ toDigits x.wholePart

end TildeMerge.Number
