import TildeMerge.Json.Number

namespace TildeMerge.Json

open Number

inductive Token where
  | openList
  | closeList
  | openRecord
  | closeRecord
  | comma
  | colon
  | text (t : Text)
  | atom (v : Value)

/-- What the machine has seen of a token. The characters of texts, numbers and words are held in
reverse. -/
inductive State where
  | between
  | word (seen : Text)
  | number (seen : Text)
  | text (seen : Text)
  | escape (seen : Text)
  /-- Inside the four digits of an escape; `high` is the unit before them, if it awaits another. -/
  | code (seen : Text) (high : Option Nat) (count value : Nat)
  | high (seen : Text) (unit : Nat)
  | highEscape (seen : Text) (unit : Nat)

def isSpace (c : Char) : Bool :=
  c == ' ' || c == '\t' || c == '\n' || c == '\r'

def isNumberChar (c : Char) : Bool :=
  c.isDigit || c == '-' || c == '+' || c == '.' || c == 'e' || c == 'E'

def readWord (t : Text) : Option Value :=
  if t = ['n', 'u', 'l', 'l'] then some .null
  else if t = ['t', 'r', 'u', 'e'] then some (.bool true)
  else if t = ['f', 'a', 'l', 's', 'e'] then some (.bool false)
  else none

def unescape (c : Char) : Option Char :=
  if c == '"' || c == '\\' || c == '/' then some c
  else if c == 'b' then some '\x08'
  else if c == 'f' then some '\x0c'
  else if c == 'n' then some '\n'
  else if c == 'r' then some '\r'
  else if c == 't' then some '\t'
  else none

/-- After the last digit of an escape: a unit stands for a character, or a high unit for one
together with the low unit after it. -/
def endCode (seen : Text) (high : Option Nat) (unit : Nat) : Option State :=
  let isHigh := 0xD800 ≤ unit && unit < 0xDC00
  let isLow := 0xDC00 ≤ unit && unit < 0xE000
  match high with
  | none =>
    if isHigh then some (.high seen unit)
    else if isLow then none
    else some (.text (Char.ofNat unit :: seen))
  | some h =>
    if isLow then
      some (.text (Char.ofNat (0x10000 + (h - 0xD800) * 0x400 + (unit - 0xDC00)) :: seen))
    else none

def start (c : Char) : Option (List Token × State) :=
  if isSpace c then some ([], .between)
  else if c == '[' then some ([.openList], .between)
  else if c == ']' then some ([.closeList], .between)
  else if c == '{' then some ([.openRecord], .between)
  else if c == '}' then some ([.closeRecord], .between)
  else if c == ',' then some ([.comma], .between)
  else if c == ':' then some ([.colon], .between)
  else if c == '"' then some ([], .text [])
  else if c == '-' || c.isDigit then some ([], .number [c])
  else if c.isLower then some ([], .word [c])
  else none

def finish (v : Option Value) (c : Char) : Option (List Token × State) := do
  let v ← v
  let (tokens, state) ← start c
  return (.atom v :: tokens, state)

def step : State → Char → Option (List Token × State)
  | .between, c => start c
  | .word seen, c =>
    if c.isLower then some ([], .word (c :: seen)) else finish (readWord seen.reverse) c
  | .number seen, c =>
    if isNumberChar c then some ([], .number (c :: seen)) else finish (readNumber seen.reverse) c
  | .text seen, c =>
    if c == '"' then some ([.text seen.reverse], .between)
    else if c == '\\' then some ([], .escape seen)
    else if c < ' ' then none
    else some ([], .text (c :: seen))
  | .escape seen, c =>
    if c == 'u' then some ([], .code seen none 0 0)
    else (unescape c).map fun d ↦ ([], .text (d :: seen))
  | .code seen high count value, c => do
    let digit ← hexValue c
    let value := value * 16 + digit
    if count < 3 then some ([], .code seen high (count + 1) value)
    else (endCode seen high value).map fun s ↦ ([], s)
  | .high seen unit, c => if c == '\\' then some ([], .highEscape seen unit) else none
  | .highEscape seen unit, c => if c == 'u' then some ([], .code seen (some unit) 0 0) else none

def atEnd : State → Option (List Token)
  | .between => some []
  | .word seen => (readWord seen.reverse).map fun v ↦ [.atom v]
  | .number seen => (readNumber seen.reverse).map fun v ↦ [.atom v]
  | _ => none

def tokensFrom : State → Text → Option (List Token)
  | s, [] => atEnd s
  | s, c :: t => do
    let (tokens, s) ← step s c
    return tokens ++ (← tokensFrom s t)

def tokens (t : Text) : Option (List Token) :=
  tokensFrom .between t

end TildeMerge.Json
