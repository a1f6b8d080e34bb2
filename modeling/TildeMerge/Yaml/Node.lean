import TildeMerge.Text.Utf8
import TildeMerge.Yaml.Lexer

namespace TildeMerge.Yaml

/-- A node. `anchor` is the number of its anchor, if it has one; `tag` is its full tag. -/
inductive Node where
  | scalar (anchor : Option Nat) (tag : Option Bytes) (text : Text) (style : Style)
  | alias (target : Nat)
  | sequence (anchor : Option Nat) (tag : Option Bytes) (items : List Node)
  | mapping (anchor : Option Nat) (tag : Option Bytes) (entries : List (Node × Node))

namespace Node

mutual

/-- The number of marks that a node leaves in a flat account of the document: one for a scalar or an
alias, and two more than its parts for a collection. -/
def size : Node → Nat
  | scalar .. => 1
  | .alias _ => 1
  | sequence _ _ items => sizeItems items + 2
  | mapping _ _ entries => sizeEntries entries + 2

def sizeItems : List Node → Nat
  | [] => 0
  | n :: rest => size n + sizeItems rest

def sizeEntries : List (Node × Node) → Nat
  | [] => 0
  | (k, v) :: rest => size k + size v + sizeEntries rest

end

mutual

def anchored (n : Node) : List (Nat × Node) :=
  match n with
  | scalar anchor _ _ _ => (anchor.map (·, n)).toList
  | .alias _ => []
  | sequence anchor _ items => (anchor.map (·, n)).toList ++ anchoredItems items
  | mapping anchor _ entries => (anchor.map (·, n)).toList ++ anchoredEntries entries

def anchoredItems : List Node → List (Nat × Node)
  | [] => []
  | n :: rest => anchored n ++ anchoredItems rest

def anchoredEntries : List (Node × Node) → List (Nat × Node)
  | [] => []
  | (k, v) :: rest => anchored k ++ anchored v ++ anchoredEntries rest

end

def empty : Node := scalar none none [] .plain

end Node

structure ParserState where
  tokens : List Token
  anchors : List (Text × Nat)
  handles : List (Text × Bytes)

abbrev Parser := StateT ParserState Option

namespace Parser

def peek : Parser (Option Token) := do
  return (← get).tokens.head?

def skip : Parser Unit :=
  modify fun s ↦ { s with tokens := s.tokens.tail }

def accept (token : Token) : Parser Bool := do
  if (← peek) == some token then
    skip
    return true
  else return false

def atAny (tokens : List Token) : Parser Bool := do
  return (← peek).any tokens.contains

/-- Gives a name the number of names that had one before. A name that had one gets a new one. -/
def define (name : Text) : Parser Nat := do
  let s ← get
  let number := s.anchors.length
  set { s with anchors := (name, number) :: s.anchors.filter (·.1 != name) }
  return number

def resolve (name : Text) : Parser Nat := do
  (← get).anchors.lookup name

def fullTag (handle : Text) (suffix : Bytes) : Parser Bytes := do
  if handle.isEmpty then return suffix
  return (← (← get).handles.lookup handle) ++ suffix

def properties : Parser (Option Text × Option Bytes) := do
  match ← peek with
  | some (.anchor name) =>
    skip
    match ← peek with
    | some (.tag handle suffix) =>
      skip
      return (some name, some (← fullTag handle suffix))
    | _ => return (some name, none)
  | some (.tag handle suffix) =>
    skip
    match ← peek with
    | some (.anchor name) =>
      skip
      return (some name, some (← fullTag handle suffix))
    | _ => return (none, some (← fullTag handle suffix))
  | _ => return (none, none)

mutual

/-- A node. Block collections are read only where they may stand, and a sequence without indentation
only as a part of a mapping. -/
def node (inBlock asPart : Bool) : Nat → Parser Node
  | 0 => failure
  | fuel + 1 => do
    if let some (.alias name) ← peek then
      skip
      return .alias (← resolve name)
    let (name, tag) ← properties
    let anchor ← match name with
      | some name => some <$> define name
      | none => pure none
    match ← peek with
    | some (.scalar text style) =>
      skip
      return .scalar anchor tag text style
    | some .openSequence =>
      skip
      return .sequence anchor tag (← flowItems true fuel)
    | some .openMapping =>
      skip
      return .mapping anchor tag (← flowEntries true fuel)
    | next =>
      if inBlock && next == some .blockSequence then
        skip
        return .sequence anchor tag (← blockItems fuel)
      else if inBlock && next == some .blockMapping then
        skip
        return .mapping anchor tag (← blockEntries fuel)
      else if asPart && next == some .entry then
        return .sequence anchor tag (← partItems fuel)
      else
        guard (anchor.isSome || tag.isSome)
        return .scalar anchor tag [] .plain

def nodeUnless (tokens : List Token) (inBlock asPart : Bool) : Nat → Parser Node
  | 0 => failure
  | fuel + 1 => do
    if ← atAny tokens then return .empty
    node inBlock asPart fuel

def blockItems : Nat → Parser (List Node)
  | 0 => failure
  | fuel + 1 => do
    if ← accept .entry then
      let item ← nodeUnless [.entry, .blockEnd] true false fuel
      return item :: (← blockItems fuel)
    guard (← accept .blockEnd)
    return []

/-- The items of a sequence that stands in a mapping without indentation. It ends where no item
follows. -/
def partItems : Nat → Parser (List Node)
  | 0 => failure
  | fuel + 1 => do
    if ← accept .entry then
      let item ← nodeUnless [.entry, .key, .value, .blockEnd] true false fuel
      return item :: (← partItems fuel)
    return []

def blockEntries : Nat → Parser (List (Node × Node))
  | 0 => failure
  | fuel + 1 => do
    if ← accept .key then
      let stops := [.key, .value, .blockEnd]
      let key ← nodeUnless stops true true fuel
      let value ← if ← accept .value then nodeUnless stops true true fuel else pure .empty
      return (key, value) :: (← blockEntries fuel)
    guard (← accept .blockEnd)
    return []

def flowItems (first : Bool) : Nat → Parser (List Node)
  | 0 => failure
  | fuel + 1 => do
    if ← accept .closeSequence then return []
    unless first do
      guard (← accept .comma)
    if ← accept .closeSequence then return []
    let item ← if ← accept .key then pairItem fuel else node false false fuel
    return item :: (← flowItems false fuel)

/-- A single pair in a flow sequence, after the mark of its key. Without a key the next token is
taken for it. -/
def pairItem : Nat → Parser Node
  | 0 => failure
  | fuel + 1 => do
    let key ←
      if ← atAny [.value, .comma, .closeSequence] then
        skip
        pure .empty
      else node false false fuel
    let value ←
      if ← accept .value then nodeUnless [.comma, .closeSequence] false false fuel
      else pure .empty
    return .mapping none none [(key, value)]

/-- The entries of a flow mapping and its end. An entry without the mark of a key has no value. -/
def flowEntries (first : Bool) : Nat → Parser (List (Node × Node))
  | 0 => failure
  | fuel + 1 => do
    if ← accept .closeMapping then return []
    unless first do
      guard (← accept .comma)
    if ← accept .closeMapping then return []
    if ← accept .key then
      let key ← nodeUnless [.value, .comma, .closeMapping] false false fuel
      let value ←
        if ← accept .value then nodeUnless [.comma, .closeMapping] false false fuel
        else pure .empty
      return (key, value) :: (← flowEntries false fuel)
    let key ← node false false fuel
    return (key, .empty) :: (← flowEntries false fuel)

end

def defaultHandles : List (Text × Bytes) :=
  [(['!'], Utf8.encode ['!']), (['!', '!'], Utf8.encode "tag:yaml.org,2002:".toList)]

/-- The directives before a document: at most one version, which is 1.1 or 1.2, and at most one
prefix for a handle. -/
def directives : List Token → Bool → List (Text × Bytes) → Option (List (Text × Bytes) × List Token)
  | .version major minor :: rest, versioned, handles => do
    guard (!versioned && major == 1 && (minor == 1 || minor == 2))
    directives rest true handles
  | .tagPrefix handle uri :: rest, versioned, handles => do
    guard ((handles.lookup handle).isNone)
    directives rest versioned ((handle, uri) :: handles)
  | rest, _, handles => some (handles, rest)

def document (ts : List Token) : Option (Node × List Token) := do
  let (handles, rest) ← directives ts false []
  let explicit := rest.head? == some .documentStart
  guard (explicit || rest.length == ts.length)
  let tokens := if explicit then rest.tail else rest
  let state : ParserState := ⟨tokens, [], handles ++ defaultHandles⟩
  let ended := match tokens with
    | [] => true
    | t :: _ =>
      match t with
      | .version .. | .tagPrefix .. | .documentStart | .documentEnd => true
      | _ => false
  if explicit && ended then return (.empty, tokens)
  let (n, state) ← (node true false (8 * ts.length + 8)).run state
  return (n, state.tokens)

end Parser

/-- The only document of a text; none if there is no document, and a failure if there are more. -/
def readDocument (t : Text) : Option (Option Node) := do
  match ← tokens t with
  | [] => return none
  | ts =>
    let (n, rest) ← Parser.document ts
    guard (rest.all (· == .documentEnd))
    return some n

end TildeMerge.Yaml
