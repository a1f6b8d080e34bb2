import TildeMerge.Text.Basic

namespace TildeMerge.Utf8

def encode (t : Text) : Bytes :=
  t.flatMap String.utf8EncodeChar

/-- Where the decoder stands: between characters, or inside one with the value so far, the number
of bytes that are still owed and the range of the next one. -/
inductive State where
  | between
  | inside (value owed low high : Nat)
  deriving DecidableEq, Repr

inductive First where
  | whole (c : Char)
  | longer (s : State)
  | bad

/-- Reads a first byte. The range of the second byte keeps out characters that are written too
long, surrogates and values above the last code point. -/
def first (b : UInt8) : First :=
  let n := b.toNat
  if n < 0x80 then .whole (Char.ofNat n)
  else if n < 0xC2 then .bad
  else if n < 0xE0 then .longer (.inside (n - 0xC0) 1 0x80 0xBF)
  else if n < 0xF0 then
    .longer (.inside (n - 0xE0) 2 (if n == 0xE0 then 0xA0 else 0x80)
      (if n == 0xED then 0x9F else 0xBF))
  else if n < 0xF5 then
    .longer (.inside (n - 0xF0) 3 (if n == 0xF0 then 0x90 else 0x80)
      (if n == 0xF4 then 0x8F else 0xBF))
  else .bad

def replacement : Char := '\uFFFD'

def start (b : UInt8) : Text × State :=
  match first b with
  | .whole c => ([c], .between)
  | .longer s => ([], s)
  | .bad => ([replacement], .between)

/-- Reads a byte. One that cannot continue the character ends it and starts anew. -/
def step : State → UInt8 → Text × State
  | .between, b => start b
  | .inside value owed low high, b =>
    let n := b.toNat
    if low ≤ n && n ≤ high then
      let value := value * 64 + (n - 0x80)
      if owed ≤ 1 then ([Char.ofNat value], .between)
      else ([], .inside value (owed - 1) 0x80 0xBF)
    else
      let (t, s) := start b
      (replacement :: t, s)

/-- Reads bytes from a state on. A character that is cut off at the end is replaced too. -/
def decodeFrom : State → Bytes → Text
  | .between, [] => []
  | .inside .., [] => [replacement]
  | s, b :: rest =>
    let (t, s) := step s b
    t ++ decodeFrom s rest

/-- The text of bytes, with replacement characters for those that are no UTF-8. -/
def decodeLossy (bytes : Bytes) : Text :=
  decodeFrom .between bytes

/-- The text of bytes that are UTF-8 throughout: the one that they encode. -/
def decode? (bytes : Bytes) : Option Text :=
  let t := decodeLossy bytes
  if encode t == bytes then some t else none

end TildeMerge.Utf8
