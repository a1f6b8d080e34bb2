import TildeMerge.Text.Utf8
import TildeMerge.Yaml.Scalar
import TildeMerge.Yaml.Token

namespace TildeMerge.Yaml

open Number

/-- A place where a key may have started. -/
structure KeyStart where
  position : Nat
  offset : Nat
  line : Nat
  column : Nat
  required : Bool

/-- A lexer on its way through a text. A key shows only at the colon behind it; until then the lexer
remembers where a key could have started, and puts the tokens of the key in there afterwards. -/
structure Lexer where
  cursor : Cursor
  /-- The tokens so far, the last one first, and their number. -/
  tokens : List Token
  count : Nat
  indents : List Nat
  /-- Where a key may have started, for each open flow collection and then for the text outside
  them, the innermost first. -/
  keys : List (Option KeyStart)
  keyAllowed : Bool

namespace Lexer

def atStart (t : Text) : Lexer :=
  ⟨.atStart t, [], 0, [], [none], true⟩

def inFlow (x : Lexer) : Bool :=
  match x.keys with
  | _ :: _ :: _ => true
  | _ => false

/-- The column of the innermost block; -1 outside all blocks. -/
def indent (x : Lexer) : Int :=
  match x.indents with
  | [] => -1
  | column :: _ => column

def emit (x : Lexer) (token : Token) : Lexer :=
  { x with tokens := token :: x.tokens, count := x.count + 1 }

def insertAt (x : Lexer) (position : Nat) (token : Token) : Lexer :=
  let later := x.count - position
  { x with
    tokens := x.tokens.take later ++ token :: x.tokens.drop later
    count := x.count + 1 }

def emitMark (x : Lexer) (token : Token) (length : Nat) : Lexer :=
  { x with cursor := x.cursor.skip length }.emit token

def indentTo (x : Lexer) (column position : Nat) (token : Token) : Lexer :=
  if !x.inFlow && x.indent < column then
    { x.insertAt position token with indents := column :: x.indents }
  else x

/-- Closes the blocks that lie to the right of a column. Inside flow collections columns do not
count. -/
def outdentTo (x : Lexer) (column : Int) : Lexer :=
  if x.inFlow then x
  else
    let closed := x.indents.takeWhile fun (c : Nat) ↦ column < c
    { x with
      tokens := closed.map (fun _ ↦ .blockEnd) ++ x.tokens
      count := x.count + closed.length
      indents := x.indents.drop closed.length }

/-- Gives up the innermost place where a key may have started; fails if it had to be one. -/
def dropKey (x : Lexer) : Option Lexer :=
  match x.keys with
  | some k :: rest => if k.required then none else some { x with keys := none :: rest }
  | _ => some x

/-- Remembers that a key may start here. Where it would be the next entry of a block, it has to. -/
def saveKey (x : Lexer) : Option Lexer :=
  if x.keyAllowed then do
    let c := x.cursor
    let x ← x.dropKey
    let start : KeyStart :=
      ⟨x.count, c.offset, c.line, c.column, !x.inFlow && x.indent == c.column⟩
    return { x with keys := some start :: x.keys.tail }
  else some x

/-- Gives up the innermost place where a key may have started if the key has become too long: it fits
on one line and in 1024 bytes. The places outside are seen to when they are innermost again. -/
def dropStaleKey (x : Lexer) : Option Lexer :=
  match x.keys with
  | some k :: _ =>
    if x.cursor.line ≤ k.line && x.cursor.offset ≤ k.offset + 1024 then some x else x.dropKey
  | _ => some x

/-- Moves to the next token, over spacing, comments and line breaks. Outside flow collections a
tab is no spacing where a key may start, and a line break lets a key start. -/
def skipGap : Nat → Lexer → Lexer
  | 0, x => x
  | fuel + 1, x =>
    let c := if x.cursor.column == 0 && x.cursor.rest.head? == some '\uFEFF' then x.cursor.skip 1
      else x.cursor
    let c := c.skipWhile fun d ↦ d == ' ' || ((x.inFlow || !x.keyAllowed) && d == '\t')
    let c := if c.rest.head? == some '#' then c.skipLine else c
    if c.rest.head?.any isBreak then
      skipGap fuel { x with cursor := c.readBreak.2, keyAllowed := x.keyAllowed || !x.inFlow }
    else { x with cursor := c }

def readVersionNumber (c : Cursor) : Option (Nat × Cursor) := do
  let (digits, c) := c.span Char.isDigit
  guard (!digits.isEmpty && digits.length ≤ 9)
  return (digits.foldl (fun n d ↦ 10 * n + (d.toNat - '0'.toNat)) 0, c)

/-- Reads the handle of a tag: an exclamation mark, and perhaps a name and a second one. In a
directive a name must have the second one. -/
def readHandle (inDirective : Bool) (c : Cursor) : Option (Text × Cursor) := do
  guard (c.rest.head? == some '!')
  let (name, c) := (c.skip 1).span isNameChar
  if c.rest.head? == some '!' then return ('!' :: name ++ ['!'], c.skip 1)
  guard (!inDirective || name.isEmpty)
  return ('!' :: name, c)

def isUriChar (verbatim : Bool) (c : Char) : Bool :=
  isNameChar c || ";/?:@&=+$.%!~*'()".toList.contains c || (verbatim && ",[]".toList.contains c)

def utf8Length (byte : Nat) : Option Nat :=
  if byte < 0x80 then some 1
  else if byte / 0x20 == 6 then some 2
  else if byte / 0x10 == 14 then some 3
  else if byte / 8 == 30 then some 4
  else none

/-- Reads the bytes of a tag. A percent sign and two hexadecimal digits stand for a byte; `owed` is
the number of bytes that must follow in this way to complete a character. -/
def readUri (verbatim : Bool) : Nat → Nat → Cursor → Option (Bytes × Cursor)
  | 0, _, c => some ([], c)
  | fuel + 1, owed, c => do
    match c.rest with
    | '%' :: rest =>
      let digits := rest.take 2
      guard (digits.length == 2)
      let byte ← readDigits 16 digits
      let owed ←
        if owed == 0 then (utf8Length byte).map (· - 1)
        else if byte / 0x40 == 2 then some (owed - 1)
        else none
      let (bytes, c) ← readUri verbatim fuel owed (c.skip 3)
      return (UInt8.ofNat byte :: bytes, c)
    | d :: _ =>
      guard (owed == 0)
      if isUriChar verbatim d then
        let (bytes, c) ← readUri verbatim fuel 0 (c.skip 1)
        return (Utf8.encode [d] ++ bytes, c)
      else return ([], c)
    | [] =>
      guard (owed == 0)
      return ([], c)

def upToZero (bytes : Bytes) : Bytes :=
  bytes.takeWhile (· != 0)

def readSuffix (verbatim : Bool) (fuel : Nat) (c : Cursor) : Option (Bytes × Cursor) := do
  let (bytes, c') ← readUri verbatim fuel 0 c
  guard (c.offset < c'.offset)
  return (upToZero bytes, c')

/-- Reads a tag: verbatim between angle brackets, with a handle, or with a single mark in front. A
mark alone is a tag of its own. -/
def readTag (inFlow : Bool) (fuel : Nat) (c : Cursor) : Option (Token × Cursor) := do
  let ended (c : Cursor) : Bool := atGap c.rest || (inFlow && c.rest.head? == some ',')
  if c.rest.drop 1 |>.head? |> (· == some '<') then
    let (suffix, c) ← readSuffix true fuel (c.skip 2)
    guard (c.rest.head? == some '>')
    let c := c.skip 1
    guard (ended c)
    return (.tag [] suffix, c)
  let (handle, c) ← readHandle false c
  if 2 ≤ handle.length && handle.getLast? == some '!' then
    let (suffix, c) ← readSuffix false fuel c
    guard (ended c)
    return (.tag handle suffix, c)
  let (bytes, c) ← readUri false fuel 0 c
  guard (ended c)
  let suffix := upToZero (Utf8.encode (handle.drop 1) ++ bytes)
  if suffix.isEmpty then return (.tag [] (Utf8.encode ['!']), c)
  return (.tag ['!'] suffix, c)

def readDirective (fuel : Nat) (c : Cursor) : Option (Token × Cursor) := do
  let (name, c) := (c.skip 1).span isNameChar
  guard (!name.isEmpty && atGap c.rest)
  let c := c.skipWhile isSpacing
  let (token, c) ←
    if name = "YAML".toList then do
      let (major, c) ← readVersionNumber c
      guard (c.rest.head? == some '.')
      let (minor, c) ← readVersionNumber (c.skip 1)
      pure (Token.version major minor, c)
    else if name = "TAG".toList then do
      let (handle, c) ← readHandle true c
      guard (c.rest.head?.any isSpacing)
      let (uri, c) ← readSuffix true fuel (c.skipWhile isSpacing)
      guard (atGap c.rest)
      pure (Token.tagPrefix handle uri, c)
    else none
  let c := c.skipToLineEnd
  guard (atLineEnd c.rest)
  return (token, c.readBreak.2)

def readName (c : Cursor) : Option (Text × Cursor) := do
  let (name, c) := (c.skip 1).span isNameChar
  guard (!name.isEmpty && (atGap c.rest || c.rest.head?.any ("?:,]\x7d%@`".toList.contains ·)))
  return (name, c)

def finish (x : Lexer) : Option Lexer :=
  (x.outdentTo (-1)).dropKey

def atMargin (x : Lexer) (read : Cursor → Option (Token × Cursor)) : Option Lexer := do
  let x ← (x.outdentTo (-1)).dropKey
  let (token, cursor) ← read x.cursor
  return { x with cursor, keyAllowed := false }.emit token

def openFlow (x : Lexer) (token : Token) : Option Lexer := do
  let x ← x.saveKey
  return { x with keys := none :: x.keys, keyAllowed := true }.emitMark token 1

def closeFlow (x : Lexer) (token : Token) : Option Lexer := do
  let x ← x.dropKey
  let keys := if x.inFlow then x.keys.tail else x.keys
  return { x with keys, keyAllowed := false }.emitMark token 1

def comma (x : Lexer) : Option Lexer := do
  let x ← x.dropKey
  return { x with keyAllowed := true }.emitMark .comma 1

def openBlock (x : Lexer) (token : Token) : Option Lexer :=
  if x.inFlow then some x
  else if x.keyAllowed then some (x.indentTo x.cursor.column x.count token)
  else none

def entry (x : Lexer) : Option Lexer := do
  let x ← (← x.openBlock .blockSequence).dropKey
  return { x with keyAllowed := true }.emitMark .entry 1

def key (x : Lexer) : Option Lexer := do
  let x ← (← x.openBlock .blockMapping).dropKey
  return { x with keyAllowed := !x.inFlow }.emitMark .key 1

/-- At a colon: what may have started a key has started one, and with it perhaps a block. -/
def value (x : Lexer) : Option Lexer := do
  match x.keys with
  | some k :: rest =>
    let x := { x.insertAt k.position .key with keys := none :: rest, keyAllowed := false }
    return (x.indentTo k.column k.position .blockMapping).emitMark .value 1
  | _ =>
    let x ← x.openBlock .blockMapping
    return { x with keyAllowed := !x.inFlow }.emitMark .value 1

def content (x : Lexer) (read : Cursor → Option (Token × Cursor)) : Option Lexer := do
  let x ← x.saveKey
  let (token, cursor) ← read x.cursor
  return { x with cursor, keyAllowed := false }.emit token

def block (x : Lexer) (folded : Bool) (fuel : Nat) : Option Lexer := do
  let x ← x.dropKey
  let (text, cursor) ← blockScalar folded x.indent fuel x.cursor
  return { x with cursor, keyAllowed := true }.emit (.scalar text .quoted)

def plain (x : Lexer) (fuel : Nat) : Option Lexer := do
  let x ← x.saveKey
  let (text, broken, cursor) ← plainScalar x.inFlow (x.indent + 1).toNat fuel x.cursor
  return { x with cursor, keyAllowed := broken }.emit (.scalar text .plain)

def startsPlain (inFlow : Bool) (d : Char) (rest : Text) : Bool :=
  !isSpacing d &&
    (!("-?:,[]\x7b\x7d#&*!|>'\"%@`".toList.contains d) ||
      (d == '-' && !rest.head?.any isSpacing) ||
      (!inFlow && (d == '?' || d == ':') && !atGap rest))

def readToken (x : Lexer) (fuel : Nat) (d : Char) (rest : Text) : Option Lexer :=
  if x.cursor.column == 0 && d == '%' then x.atMargin (readDirective fuel)
  else if x.cursor.atMarker then
    x.atMargin fun c ↦ some (if d == '-' then .documentStart else .documentEnd, c.skip 3)
  else if d == '[' then x.openFlow .openSequence
  else if d == '{' then x.openFlow .openMapping
  else if d == ']' then x.closeFlow .closeSequence
  else if d == '}' then x.closeFlow .closeMapping
  else if d == ',' then x.comma
  else if d == '-' && atGap rest then x.entry
  else if d == '?' && (x.inFlow || atGap rest) then x.key
  else if d == ':' && (x.inFlow || atGap rest) then x.value
  else if d == '*' then x.content fun c ↦ (readName c).map fun (name, c) ↦ (.alias name, c)
  else if d == '&' then x.content fun c ↦ (readName c).map fun (name, c) ↦ (.anchor name, c)
  else if d == '!' then x.content (readTag x.inFlow fuel)
  else if d == '|' && !x.inFlow then x.block false fuel
  else if d == '>' && !x.inFlow then x.block true fuel
  else if d == '\'' || d == '"' then
    x.content fun c ↦ (quotedScalar d fuel c).map fun (t, c) ↦ (.scalar t .quoted, c)
  else if startsPlain x.inFlow d rest then x.plain fuel
  else none

def step (fuel : Nat) (x : Lexer) : Option (Bool × Lexer) := do
  let x ← (skipGap fuel x).dropStaleKey
  let x := x.outdentTo x.cursor.column
  match x.cursor.rest with
  | [] => return (true, ← x.finish)
  | d :: rest => return (false, ← x.readToken fuel d rest)

/-- Reads all tokens. Every step but the last moves the cursor, so that what is left of the fuel is
always enough for the characters ahead. -/
def run : Nat → Lexer → Option (List Token)
  | 0, _ => none
  | fuel + 1, x => do
    let (ended, x) ← x.step (fuel + 1)
    if ended then return x.tokens.reverse
    run fuel x

end Lexer

def tokens (t : Text) : Option (List Token) := do
  guard (t.all isAllowed)
  Lexer.run (t.length + 2) (.atStart t)

end TildeMerge.Yaml
