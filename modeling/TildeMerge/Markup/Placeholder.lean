import TildeMerge.Markup.Runs

namespace TildeMerge.Markup

/-- A piece of a scanned text: a character that stands for itself, or the path of a placeholder. -/
inductive Piece where
  | plain (c : Char)
  | placeholder (path : Text)
  deriving DecidableEq, Repr

def Piece.text (marker : Char) : Piece → Text
  | .plain c => [c]
  | .placeholder path => marker :: path

def Piece.path? : Piece → Option Text
  | .plain _ => none
  | .placeholder path => some path

/-- A placeholder with the byte offsets where it starts and stops. -/
structure Placeholder where
  start : Nat
  stop : Nat
  path : Text
  deriving DecidableEq, Repr

def locate (offset : Nat) : List Piece → List Placeholder
  | [] => []
  | .plain c :: ps => locate (offset + c.utf8Size) ps
  | .placeholder path :: ps =>
    let stop := offset + 1 + path.size
    ⟨offset, stop, path⟩ :: locate stop ps

/-- A tilde marks a placeholder if a word character follows it, and the path is the whole run. -/
def scalarPieces (t : Text) : List Piece :=
  let r := runs t
  r.first.map .plain ++ r.rest.flatMap fun (c, run) ↦
    if c == '~' && run.startsWord then [.placeholder run] else (c :: run).map .plain

/-- In a run the first dot marks a placeholder unless it is the last character. -/
def runPieces (run : Text) : List Piece :=
  let before := run.takeWhile (· != '.')
  match run.dropWhile (· != '.') with
  | _ :: c :: path => before.map .plain ++ [.placeholder (c :: path)]
  | _ => run.map .plain

def itemPieces (t : Text) : List Piece :=
  let r := runs t
  runPieces r.first ++ r.rest.flatMap fun (c, run) ↦ .plain c :: runPieces run

def scalars (t : Text) : List Placeholder :=
  locate 0 (scalarPieces t)

def itemRefs (t : Text) : List Placeholder :=
  locate 0 (itemPieces t)

end TildeMerge.Markup
