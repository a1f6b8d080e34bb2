import TildeMerge.Text.Basic

namespace TildeMerge.Yaml

def isAllowed (c : Char) : Bool :=
  c == '\t' || c == '\n' || c == '\r' || (' ' ≤ c && c ≤ '~') || c == '\u0085' ||
    ('\u00A0' ≤ c && c ≤ '\uFFFD') || 0x10000 ≤ c.toNat

def isBreak (c : Char) : Bool :=
  c == '\n' || c == '\r' || c == '\u0085' || c == '\u2028' || c == '\u2029'

def isSpacing (c : Char) : Bool :=
  c == ' ' || c == '\t'

def isNameChar (c : Char) : Bool :=
  isWordChar c || c == '-'

/-- Whether a token may end before this text: at its end, at a line break or at spacing. -/
def atGap : Text → Bool
  | [] => true
  | c :: _ => isBreak c || isSpacing c

def atLineEnd : Text → Bool
  | [] => true
  | c :: _ => isBreak c

/-- A place in a text: what follows it, and where it is. -/
structure Cursor where
  rest : Text
  offset : Nat
  line : Nat
  column : Nat

namespace Cursor

def atStart (t : Text) : Cursor := ⟨t, 0, 0, 0⟩

def skip (c : Cursor) (count : Nat) : Cursor :=
  { c with
    rest := c.rest.drop count
    offset := c.offset + Text.size (c.rest.take count)
    column := c.column + count }

def span (c : Cursor) (p : Char → Bool) : Text × Cursor :=
  let taken := c.rest.takeWhile p
  (taken, c.skip taken.length)

def skipWhile (c : Cursor) (p : Char → Bool) : Cursor :=
  (c.span p).2

def skipLine (c : Cursor) : Cursor :=
  c.skipWhile fun d ↦ !isBreak d

/-- Moves over spacing and a comment, which must not touch what stands before it. -/
def skipToLineEnd (c : Cursor) : Cursor :=
  let c := c.skipWhile isSpacing
  if c.rest.head? == some '#' then c.skipLine else c

/-- A line break as it counts in a text, and the start of the next line. The two separators of
Unicode are kept as they are; all other breaks count as a line feed. Without a break nothing is
read. -/
def readBreak (c : Cursor) : Text × Cursor :=
  match c.rest with
  | '\r' :: '\n' :: rest => (['\n'], ⟨rest, c.offset + 2, c.line + 1, 0⟩)
  | d :: rest =>
    if isBreak d then
      ([if d == '\u2028' || d == '\u2029' then d else '\n'], ⟨rest, c.offset + d.utf8Size, c.line + 1, 0⟩)
    else ([], c)
  | [] => ([], c)

/-- Whether a document starts or ends here: three hyphens or dots that stand alone at the start of
a line. -/
def atMarker (c : Cursor) : Bool :=
  c.column == 0 &&
    (c.rest.take 3 == ['-', '-', '-'] || c.rest.take 3 == ['.', '.', '.']) && atGap (c.rest.drop 3)

end Cursor

end TildeMerge.Yaml
