import TildeMerge.Markup.Placeholder

namespace TildeMerge.Markup

/-- What follows the tilde of a closer. -/
def closer : Text := ['.', 'e', 'n', 'd']

def opens (c : Char) (run : Text) : Bool :=
  c == '~' && run.head? == some '.'

/-- A tilde that `.end` follows closes a block, whatever stands after it in its run. -/
def closes (c : Char) (run : Text) : Bool :=
  c == '~' && closer.isPrefixOf run

/-- A section of a text: a character outside every block, or a whole block with its markers. -/
inductive Section where
  | plain (c : Char)
  | block (region : Text)
  deriving DecidableEq, Repr

def Section.text : Section → Text
  | .plain c => [c]
  | .block region => region

/-- Two readings of the end of a text: as it stands outside a block, and as it continues a block
that is already open, if a closer is there to end it. -/
structure Reading where
  outside : List Section
  inside : Option (Text × List Section)

def read : List (Char × Text) → Reading
  | [] => ⟨[], none⟩
  | (c, run) :: rest =>
    let r := read rest
    let plain := (c :: run).map .plain
    { outside :=
        match r.inside with
        | some (region, after) =>
          if opens c run then .block (c :: run ++ region) :: after else plain ++ r.outside
        | none => plain ++ r.outside
      inside :=
        if closes c run then
          some (c :: closer, (run.drop closer.length).map .plain ++ r.outside)
        else r.inside.map fun (region, after) ↦ (c :: run ++ region, after) }

def sections (t : Text) : List Section :=
  let r := runs t
  r.first.map .plain ++ (read r.rest).outside

/-- A block with the byte offsets where its region starts and stops. -/
structure Block where
  start : Nat
  stop : Nat
  headLine : Text
  body : Text
  deriving DecidableEq, Repr

/-- The body of a region: the lines after the first one and before the last one. -/
def bodyOf (region : Text) : Text :=
  ((region.afterFirstBreak.bind Text.beforeLastBreak)).getD []

def Block.ofRegion (start : Nat) (region : Text) : Block where
  start
  stop := start + region.size
  headLine := region.firstLine
  body := bodyOf region

def locateBlocks (offset : Nat) : List Section → List Block
  | [] => []
  | .plain c :: ss => locateBlocks (offset + c.utf8Size) ss
  | .block region :: ss =>
    .ofRegion offset region :: locateBlocks (offset + region.size) ss

def blocks (t : Text) : List Block :=
  locateBlocks 0 (sections t)

/-- What stands after the last block; all of the text if it has none. -/
def tail (sections : List Section) : Text :=
  (sections.reverse.takeWhile fun | .plain _ => true | .block _ => false).reverse.flatMap
    Section.text

structure Head where
  directive : Text
  collection : Option Text
  deriving DecidableEq, Repr

/-- Splits a token at its first dot into directive and collection, if something follows the dot;
otherwise dots at its end are dropped and no collection is named. -/
def Head.ofToken (token : Text) : Head :=
  match token.dropWhile (· != '.') with
  | _ :: c :: path => ⟨token.takeWhile (· != '.'), some (c :: path)⟩
  | _ => ⟨(token.reverse.dropWhile (· == '.')).reverse, none⟩

/-- Reads a head line: its first dotted token is the directive and its second the collection. A
single token may hold both. A line without a dotted token has no head. -/
def Head.parse (line : Text) : Option Head :=
  match (itemPieces line).filterMap Piece.path? with
  | [] => none
  | [token] => some (.ofToken token)
  | directive :: collection :: _ => some ⟨directive, some collection⟩

def Block.head (b : Block) : Option Head :=
  Head.parse b.headLine

end TildeMerge.Markup
