import TildeMerge.Number.Digit
import TildeMerge.Yaml.Cursor

namespace TildeMerge.Yaml

open Number

/-- The gap between two pieces of a scalar: spacing on one line, or line breaks, of which the first
stands apart. -/
inductive Gap where
  | spacing (t : Text)
  | breaks (first others : Text)

namespace Gap

/-- The text of a gap. A single line feed becomes a space, and of several the first is dropped. -/
def text : Gap → Text
  | spacing t => t
  | breaks first others =>
    if first == ['\n'] then
      if others.isEmpty then [' '] else others
    else first ++ others

def isBroken : Gap → Bool
  | spacing _ => false
  | breaks .. => true

/-- Empty lines ahead. Here as below, as much fuel as there are characters ahead is enough. -/
def emptyLines (tabStop : Nat) : Nat → Cursor → Option (Text × Cursor)
  | 0, c => some ([], c)
  | fuel + 1, c => do
    let (blanks, d) := c.span isSpacing
    guard (!(blanks.take (tabStop - c.column)).contains '\t')
    if d.rest.head?.any isBreak then
      let (first, d) := d.readBreak
      let (others, d) ← emptyLines tabStop fuel d
      return (first ++ others, d)
    else return ([], d)

def read (tabStop fuel : Nat) (c : Cursor) : Option (Gap × Cursor) := do
  let (t, c) := c.span isSpacing
  if c.rest.head?.any isBreak then
    let (first, c) := c.readBreak
    let (others, c) ← emptyLines tabStop fuel c
    return (breaks first others, c)
  else return (spacing t, c)

end Gap

def isFlowMark (c : Char) : Bool :=
  c == ',' || c == '[' || c == ']' || c == '{' || c == '}'

/-- The characters of a plain scalar up to a gap or its end. In a flow collection a colon must not
touch a mark. -/
def plainPiece (inFlow : Bool) : Text → Option Text
  | [] => some []
  | d :: rest =>
    if isBreak d || isSpacing d then some []
    else if inFlow && d == ':' && rest.head?.any (fun e ↦ isFlowMark e || e == '?') then none
    else if d == ':' && atGap rest then some []
    else if inFlow && isFlowMark d then some []
    else (plainPiece inFlow rest).map (d :: ·)

/-- Reads a plain scalar on, behind a gap, which belongs to the text only if more of the scalar
follows. Outside flow collections the lines after the first are indented to the given column. Also
gives whether the scalar ends with a gap that holds a line break. -/
def plainFrom (inFlow : Bool) (indent : Nat) : Nat → Gap → Cursor → Option (Text × Bool × Cursor)
  | 0, gap, c => some ([], gap.isBroken, c)
  | fuel + 1, gap, c => do
    if c.atMarker || c.rest.head? == some '#' then return ([], gap.isBroken, c)
    let piece ← plainPiece inFlow c.rest
    let c := c.skip piece.length
    if piece.isEmpty then return ([], gap.isBroken, c)
    let text := gap.text ++ piece
    if !atGap c.rest || c.rest.isEmpty then return (text, false, c)
    let (gap, c) ← Gap.read indent fuel c
    if !inFlow && c.column < indent then return (text, gap.isBroken, c)
    let (more, broken, c) ← plainFrom inFlow indent fuel gap c
    return (text ++ more, broken, c)

def plainScalar (inFlow : Bool) (indent fuel : Nat) (c : Cursor) : Option (Text × Bool × Cursor) :=
  plainFrom inFlow indent fuel (.spacing []) c

def escapes : List (Char × Char) :=
  [('0', '\x00'), ('a', '\x07'), ('b', '\x08'), ('t', '\t'), ('\t', '\t'), ('n', '\n'),
    ('v', '\x0b'), ('f', '\x0c'), ('r', '\r'), ('e', '\x1b'), (' ', ' '), ('"', '"'), ('/', '/'),
    ('\\', '\\'), ('N', '\u0085'), ('_', '\u00A0'), ('L', '\u2028'), ('P', '\u2029')]

def codeLength (c : Char) : Option Nat :=
  if c == 'x' then some 2
  else if c == 'u' then some 4
  else if c == 'U' then some 8
  else none

def charOfCode (n : Nat) : Option Char :=
  if n < 0xD800 || (0xE000 ≤ n && n < 0x110000) then some (Char.ofNat n) else none

def readEscape : Text → Option (Char × Nat)
  | [] => none
  | d :: rest =>
    match codeLength d with
    | some count => do
      let digits := rest.take count
      guard (digits.length == count)
      return (← charOfCode (← readDigits 16 digits), count + 1)
    | none => (escapes.lookup d).map (·, 1)

/-- The characters of a quoted scalar up to a gap or the closing quotation mark, and the place
after them. Also gives whether a backslash hides the line break that follows. -/
def quotedPiece (mark : Char) : Nat → Cursor → Option (Text × Bool × Cursor)
  | 0, c => some ([], false, c)
  | fuel + 1, c => do
    let more (d : Char) (count : Nat) : Option (Text × Bool × Cursor) := do
      let (t, hidden, c) ← quotedPiece mark fuel (c.skip count)
      return (d :: t, hidden, c)
    match c.rest with
    | [] => return ([], false, c)
    | d :: rest =>
      if isBreak d || isSpacing d then return ([], false, c)
      else if mark == '\'' && d == '\'' && rest.head? == some '\'' then more '\'' 2
      else if d == mark then return ([], false, c)
      else if mark == '"' && d == '\\' then
        if rest.head?.any isBreak then return ([], true, (c.skip 1).readBreak.2)
        else
          let (e, count) ← readEscape rest
          more e (count + 1)
      else more d 1

def quotedFrom (mark : Char) : Nat → Cursor → Option (Text × Cursor)
  | 0, _ => none
  | fuel + 1, c => do
    guard (!c.atMarker && !c.rest.isEmpty)
    let (piece, hidden, c) ← quotedPiece mark fuel c
    if c.rest.head? == some mark then return (piece, c.skip 1)
    let (gap, c) ←
      if hidden then do
        let (others, c) ← Gap.emptyLines 0 fuel c
        pure (Gap.breaks [] others, c)
      else Gap.read 0 fuel c
    let (more, c) ← quotedFrom mark fuel c
    return (piece ++ gap.text ++ more, c)

def quotedScalar (mark : Char) (fuel : Nat) (c : Cursor) : Option (Text × Cursor) :=
  quotedFrom mark fuel (c.skip 1)

inductive Chomping where
  | strip
  | clip
  | keep
  deriving DecidableEq

def readChomping (c : Cursor) : Option (Chomping × Cursor) :=
  match c.rest with
  | '+' :: _ => some (.keep, c.skip 1)
  | '-' :: _ => some (.strip, c.skip 1)
  | _ => none

/-- Reads an indentation of one to nine. Zero is malformed. -/
def readIncrement (c : Cursor) : Option (Option Nat × Cursor) :=
  match c.rest with
  | d :: _ =>
    if d == '0' then none
    else if d.isDigit then some (some (d.toNat - '0'.toNat), c.skip 1)
    else some (none, c)
  | [] => some (none, c)

def readHeader (c : Cursor) : Option (Chomping × Option Nat × Cursor) :=
  match readChomping c with
  | some (chomping, c) => do
    let (increment, c) ← readIncrement c
    return (chomping, increment, c)
  | none => do
    let (increment, c) ← readIncrement c
    match increment, readChomping c with
    | some n, some (chomping, c) => return (chomping, some n, c)
    | _, _ => return (.clip, increment, c)

/-- Reads indentation and empty lines. `indent` is zero while it is not known yet; then the greatest
column is given too, starting from `deepest`. A tab must not stand in the indentation. -/
def blockBreaks (indent : Nat) : Nat → Nat → Cursor → Option (Nat × Text × Cursor)
  | 0, deepest, c => some (deepest, [], c)
  | fuel + 1, deepest, c => do
    let spaces := (c.rest.takeWhile (· == ' ')).length
    let c := c.skip (if indent == 0 then spaces else min spaces (indent - c.column))
    let deepest := max deepest c.column
    guard (!((indent == 0 || c.column < indent) && c.rest.head? == some '\t'))
    if c.rest.head?.any isBreak then
      let (first, c) := c.readBreak
      let (deepest, others, c) ← blockBreaks indent fuel deepest c
      return (deepest, first ++ others, c)
    else return (deepest, [], c)

/-- The breaks after a line of a block scalar: the first one and those of empty lines. Also whether
the line starts with spacing. -/
structure LineEnd where
  first : Text
  others : Text
  spaced : Bool

/-- The text between a line and the next one. In a folded scalar a single line feed between two
lines that do not start with spacing is a space. -/
def LineEnd.joint (e : LineEnd) (folded nextSpaced : Bool) : Text :=
  if folded && e.first.head? == some '\n' && !e.spaced && !nextSpaced then
    if e.others.isEmpty then [' '] else e.others
  else e.first ++ e.others

def blockLines (folded : Bool) (indent : Nat) :
    Nat → LineEnd → Cursor → Option (Text × LineEnd × Cursor)
  | 0, e, c => some ([], e, c)
  | fuel + 1, e, c => do
    if c.column != indent || c.rest.isEmpty then return ([], e, c)
    let spaced := c.rest.head?.any isSpacing
    let (line, c) := c.span fun d ↦ !isBreak d
    let text := e.joint folded spaced ++ line
    let (first, c) := c.readBreak
    let (_, others, c) ← blockBreaks indent fuel 0 c
    let (more, e, c) ← blockLines folded indent fuel ⟨first, others, spaced⟩ c
    return (text ++ more, e, c)

/-- Reads a block scalar inside a block of the given indentation, which is -1 at top level. -/
def blockScalar (folded : Bool) (parent : Int) (fuel : Nat) (c : Cursor) :
    Option (Text × Cursor) := do
  let (chomping, increment, c) ← readHeader (c.skip 1)
  let c := c.skipToLineEnd
  guard (atLineEnd c.rest)
  let (_, c) := c.readBreak
  let fixed := match increment with
    | some n => (max parent 0).toNat + n
    | none => 0
  let (deepest, breaks, c) ← blockBreaks fixed fuel 0 c
  let indent := if fixed == 0 then max (max deepest (parent + 1).toNat) 1 else fixed
  let (text, e, c) ← blockLines folded indent fuel ⟨[], breaks, false⟩ c
  return match chomping with
    | .strip => (text, c)
    | .clip => (text ++ e.first, c)
    | .keep => (text ++ e.first ++ e.others, c)

end TildeMerge.Yaml
