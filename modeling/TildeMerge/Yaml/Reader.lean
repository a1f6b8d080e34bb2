import TildeMerge.Data.Value
import TildeMerge.Yaml.Node

namespace TildeMerge.Yaml

open Number

/-- Null, unless the scalar is empty. -/
def isNull (t : Text) : Bool :=
  ["null", "Null", "NULL", "~"].any (·.toList == t)

def readBool (t : Text) : Option Bool :=
  if ["true", "True", "TRUE"].any (·.toList == t) then some true
  else if ["false", "False", "FALSE"].any (·.toList == t) then some false
  else none

/-- Whether a scalar has only digits after its sign, of which the first is a zero that others
follow. Such a scalar is a text. -/
def isPadded (t : Text) : Bool :=
  let digits := match t with
    | '-' :: t => t
    | '+' :: t => t
    | t => t
  1 < digits.length && digits.head? == some '0' && digits.all Char.isDigit

def readMagnitude : Text → Option Nat
  | '0' :: 'x' :: t => readDigits 16 t
  | '0' :: 'o' :: t => readDigits 8 t
  | '0' :: 'b' :: t => readDigits 2 t
  | t => readDigits 10 t

def readInteger (t : Text) : Option Int := do
  guard (!isPadded t)
  match t with
  | '-' :: t => return -(← readMagnitude t : Nat)
  | '+' :: t => return (← readMagnitude t : Nat)
  | t => return (← readMagnitude t : Nat)

/-- What the form of an integer stands for. Integers of 64 bits are values, those of 128 bits are
refused, and the decimal form of greater ones is left to the numbers with a fraction. -/
inductive Integer where
  | value (n : Int)
  | refused
  | none

def integerOf (t : Text) : Integer :=
  match readInteger t with
  | some n =>
    if Value.inIntRange n then .value n
    else if -Int.pow 2 127 ≤ n && n < Int.pow 2 128 then .refused
    else .none
  | none => .none

/-- The value of a number with a fraction. What is no number, such as an infinity, is null; a number
too great for a real is a text. -/
def readReal (t : Text) : Option Value :=
  if [".inf", ".Inf", ".INF"].any (fun s ↦ s.toList == t || '+' :: s.toList == t) then some .null
  else if ["-.inf", "-.Inf", "-.INF", ".nan", ".NaN", ".NAN"].any (·.toList == t) then some .null
  else do
    let n ← match t with
      | '+' :: unsigned => Numeral.readUnsigned false unsigned
      | t => Numeral.read t
    guard (!(n.whole.isEmpty && (n.fraction.getD []).isEmpty) && n.hasExponentDigits)
    return .real (← Binary64.ofDecimal n.toDecimal)

def plainValue (t : Text) : Option Value :=
  if t.isEmpty || isNull t then some .null
  else match readBool t with
    | some b => some (.bool b)
    | none =>
      match integerOf t with
      | .value n => some (.int n)
      | .refused => none
      | .none => some ((if isPadded t then none else readReal t).getD (.text t))

def commonTag (name : String) : Bytes :=
  Utf8.encode ("tag:yaml.org,2002:" ++ name).toList

/-- A tag that names a type of the application. None is known, so such a node has no value. -/
def isLocalTag : Bytes → Bool
  | [] => false
  | b :: rest => b == 0x21 && (Utf8.decode? rest).isSome

def hasLocalTag (tag : Option Bytes) : Bool :=
  tag.any isLocalTag

/-- The value of a scalar that is no key. A tag of the common types asks for a value of that type,
and any other common tag makes the scalar a text. -/
def scalarValue (tag : Option Bytes) (t : Text) (style : Style) : Option Value :=
  match tag with
  | none => if style == .plain then plainValue t else some (.text t)
  | some tag =>
    if isLocalTag tag then none
    else if tag == commonTag "bool" then (readBool t).map .bool
    else if tag == commonTag "int" then
      match integerOf t with
      | .value n => some (.int n)
      | _ => none
    else if tag == commonTag "float" then readReal t
    else if tag == commonTag "null" then if isNull t then some .null else none
    else if tag.head? == some 0x21 && style == .plain then plainValue t
    else some (.text t)

abbrev Builder := StateT Nat Option

structure Document where
  anchored : List (Nat × Node)
  maxAliases : Nat

/-- The document of a node. The number of aliases is bounded by its size, so that a small document
cannot stand for a huge value. -/
def Document.of (n : Node) : Document where
  anchored := n.anchored.reverse
  maxAliases := n.size * 100

/-- The node that a node stands for: of the nodes with the number of an alias, the last one. -/
def follow (d : Document) : Node → Builder Node
  | .alias target => do
    let count ← get
    guard (count < d.maxAliases)
    set (count + 1)
    d.anchored.lookup target
  | n => pure n

def keyText (d : Document) (n : Node) : Builder Text := do
  match ← follow d n with
  | .scalar _ _ t _ => return t
  | _ => failure

def valueOf (d : Document) : Nat → Node → Builder Value
  | _, .scalar _ tag t style => scalarValue tag t style
  | depth + 1, .sequence _ tag items => do
    guard (!hasLocalTag tag)
    return .list (← items.mapM fun n ↦ do valueOf d depth (← follow d n))
  | depth + 1, .mapping _ tag entries => do
    guard (!hasLocalTag tag)
    let fields ← entries.mapM fun (k, v) ↦ do
      let key ← keyText d k
      return (key, ← valueOf d depth (← follow d v))
    return .record (fields.foldl (fun fs (k, v) ↦ Fields.insert k v fs) [])
  | _, _ => failure

def maxDepth : Nat := 128

def read (t : Text) : Option Value := do
  match ← readDocument t with
  | none => return .null
  | some n =>
    let (v, _) ← (valueOf (.of n) maxDepth n).run 0
    return v

end TildeMerge.Yaml
