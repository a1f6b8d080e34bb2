import TildeMerge.Text.Basic

namespace TildeMerge.Utf16

def charUnits (c : Char) : List Nat :=
  let n := c.toNat
  if n < 0x10000 then [n]
  else [0xD800 + (n - 0x10000) / 0x400, 0xDC00 + (n - 0x10000) % 0x400]

def units (t : Text) : List Nat :=
  t.flatMap charUnits

def highByte (unit : Nat) : UInt8 :=
  UInt8.ofNat (unit / 256)

def lowByte (unit : Nat) : UInt8 :=
  UInt8.ofNat (unit % 256)

def encodeLittle (t : Text) : Bytes :=
  (units t).flatMap fun u ↦ [lowByte u, highByte u]

def encodeBig (t : Text) : Bytes :=
  (units t).flatMap fun u ↦ [highByte u, lowByte u]

end TildeMerge.Utf16
