import TildeMerge.Json.Token

namespace TildeMerge.Json

/-- A list that is still open, with its items so far in reverse, or a record that awaits the value
of a key. -/
inductive Frame where
  | list (items : List Value)
  | record (fields : Fields) (key : Text)

inductive Stage where
  | value (stack : List Frame)
  | item (stack : List Frame)
  | key (stack : List Frame) (fields : Fields) (mayEnd : Bool)
  | colon (stack : List Frame) (fields : Fields) (key : Text)
  | after (stack : List Frame) (v : Value)

def maxDepth : Nat := 127

def startValue (stack : List Frame) : Token → Option Stage
  | .atom v => some (.after stack v)
  | .text t => some (.after stack (.text t))
  | .openList => if stack.length < maxDepth then some (.item stack) else none
  | .openRecord => if stack.length < maxDepth then some (.key stack [] true) else none
  | _ => none

def take : Stage → Token → Option Stage
  | .value stack, token => startValue stack token
  | .item stack, .closeList => some (.after stack (.list []))
  | .item stack, token => startValue (.list [] :: stack) token
  | .key stack fields _, .text key => some (.colon stack fields key)
  | .key stack fields true, .closeRecord => some (.after stack (.record fields))
  | .key .., _ => none
  | .colon stack fields key, .colon => some (.value (.record fields key :: stack))
  | .colon .., _ => none
  | .after (.list items :: stack) v, .comma => some (.value (.list (v :: items) :: stack))
  | .after (.list items :: stack) v, .closeList => some (.after stack (.list (v :: items).reverse))
  | .after (.record fields key :: stack) v, .comma =>
    some (.key stack (fields.insert key v) false)
  | .after (.record fields key :: stack) v, .closeRecord =>
    some (.after stack (.record (fields.insert key v)))
  | .after .., _ => none

def ended : Stage → Option Value
  | .after [] v => some v
  | _ => none

def readFrom : Stage → List Token → Option Value
  | s, [] => ended s
  | s, token :: rest => do readFrom (← take s token) rest

def read (t : Text) : Option Value := do
  readFrom (.value []) (← tokens t)

end TildeMerge.Json
