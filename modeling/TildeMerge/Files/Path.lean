import TildeMerge.Text.Basic

namespace TildeMerge.Path

def segments (p : Text) : List Text :=
  (p.splitOn '/').filter fun s ↦ !s.isEmpty

def isAbsolute (p : Text) : Bool :=
  p.head? == some '/'

def endsInSlash (p : Text) : Bool :=
  p.getLast? == some '/'

inductive Component where
  | root
  | current
  | parent
  | normal (name : Text)
  deriving DecidableEq, Repr

def Component.text : Component → Text
  | root => ['/']
  | current => ['.']
  | parent => ['.', '.']
  | normal name => name

def ofSegment (s : Text) : Component :=
  if s = ['.', '.'] then .parent else .normal s

/-- The components of segments behind the start of a path, where single dots do not count. -/
def ofSegments (ss : List Text) : List Component :=
  (ss.filter (· != ['.'])).map ofSegment

/-- The components of a path. A single dot counts only where a path that is not absolute starts. -/
def components (p : Text) : List Component :=
  if isAbsolute p then .root :: ofSegments (segments p)
  else match segments p with
    | ['.'] :: rest => .current :: ofSegments rest
    | ss => ofSegments ss

/-- How much of a path stands in front of the names in it: the slash of the root, or a single dot at
the start. -/
def startLength (p : Text) : Nat :=
  if isAbsolute p || p.take 2 = ['.', '/'] || p = ['.'] then 1 else 0

def trimParts (parts : List Text) : List Text :=
  (parts.reverse.dropWhile fun s ↦ s.isEmpty || s = ['.']).reverse

/-- The path of what holds the last component of a path, as far as it is written there. It is empty
if there is nothing but that component. -/
def parent (p : Text) : Text :=
  let start := startLength p
  match trimParts ((p.drop start).splitOn '/') with
  | [] => []
  | parts => p.take start ++ ['/'].intercalate (trimParts parts.dropLast)

/-- Continues a path by another one. An absolute path replaces what stands before it. -/
def push (base p : Text) : Text :=
  if isAbsolute p then p
  else if base.isEmpty || endsInSlash base then base ++ p
  else base ++ '/' :: p

/-- A name without its extension, and the extension. It starts behind the last dot, which must not
be the first character of the name. -/
def splitExtension (name : Text) : Text × Option Text :=
  match name.reverse.dropWhile (· != '.') with
  | _ :: c :: before => ((c :: before).reverse, some (name.drop (before.length + 2)))
  | _ => (name, none)

end TildeMerge.Path
