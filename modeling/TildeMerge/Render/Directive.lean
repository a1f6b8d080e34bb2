import TildeMerge.Markup.Block
import TildeMerge.Render.Splice
import TildeMerge.Text.Visible

namespace TildeMerge

open Markup

abbrev Directive := Head → Text → Value → Options → Logged Text

namespace Directive

def renderItems (body : List Piece) (options : Options) : List Value → Logged Text
  | [] => return []
  | item :: rest => do
    let text ← splice (resolveIn item options.missing) body
    (text ++ options.terminator ++ ·) <$> renderItems body options rest

/-- Repeats the body for every item of the collection. A collection that is missing gives nothing,
unless gaps are not allowed. -/
def forEach : Directive := fun head body record options ↦ do
  let path := head.collection.getD []
  match record.lookup path with
  | some (.list items) =>
    Logged.tell (.renderingItems items.length path)
    renderItems (itemPieces body) options items
  | some _ => Logged.fail (.notACollection path)
  | none =>
    let _ ← options.missing.fill path
    return []

end Directive

/-- Directives by their keywords, in the order in which the keywords were registered. -/
structure Directives where
  table : List (Text × Directive)

namespace Directives

def empty : Directives := ⟨[]⟩

/-- Puts an entry into a table. An entry that is there already keeps its place. -/
def put (keyword : Text) (directive : Directive) :
    List (Text × Directive) → List (Text × Directive)
  | [] => [(keyword, directive)]
  | (k, d) :: rest =>
    if k = keyword then (k, directive) :: rest else (k, d) :: put keyword directive rest

def register (ds : Directives) (keyword : Text) (directive : Directive) : Directives :=
  ⟨put keyword directive ds.table⟩

def forKeyword : Text := ['f', 'o', 'r']

def standard : Directives :=
  empty.register forKeyword .forEach

def keywords (ds : Directives) : List Text :=
  ds.table.map (·.1)

def contains (ds : Directives) (keyword : Text) : Bool :=
  ds.keywords.contains keyword

def dispatch (ds : Directives) (head : Head) (body : Text) (record : Value) (options : Options) :
    Logged Text :=
  match ds.table.lookup head.directive with
  | some directive => directive head body record options
  | none => Logged.fail (.unknownDirective head.directive)

def listedChar (c : Char) : Text :=
  if c == '"' || c == '\\' then ['\\', c]
  else if c == '\n' then ['\\', 'n']
  else if c == '\r' then ['\\', 'r']
  else if c == '\t' then ['\\', 't']
  else if c == '\x00' then ['\\', '0']
  else if Text.isVisible c then [c]
  else ['\\', 'u', '{'] ++ Nat.toDigits 16 c.toNat ++ ['}']

def listing (ds : Directives) : Text :=
  '[' :: [',', ' '].intercalate (ds.keywords.map fun k ↦ '"' :: k.flatMap listedChar ++ ['"']) ++
    [']']

end Directives

end TildeMerge
