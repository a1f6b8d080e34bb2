import TildeMerge.Number.Binary64

namespace TildeMerge

open Number (Binary64)

inductive Value where
  | null
  | bool (b : Bool)
  | int (n : Int)
  | real (x : Binary64)
  | text (t : Text)
  | list (items : List Value)
  | record (fields : List (Text × Value))
  deriving Repr

abbrev Fields := List (Text × Value)

namespace Fields

/-- Sets a field. The order of the keys is kept, and an older value of the field is dropped. -/
def insert (key : Text) (value : Value) : Fields → Fields
  | [] => [(key, value)]
  | (k, v) :: rest =>
    if key < k then (key, value) :: (k, v) :: rest
    else if key = k then (key, value) :: rest
    else (k, v) :: insert key value rest

end Fields

namespace Value

/-- Integers are those of 64 bits, with a sign or without. -/
def inIntRange (n : Int) : Bool :=
  -Int.pow 2 63 ≤ n && n < Int.pow 2 64

def isNull : Value → Bool
  | null => true
  | _ => false

def isRecord : Value → Bool
  | record _ => true
  | _ => false

/-- The value of a field. The key is one literal key, dots and all, and a null counts as absent. -/
def lookup (v : Value) (key : Text) : Option Value :=
  match v with
  | record fields => (fields.lookup key).filter (!·.isNull)
  | _ => none

end Value

end TildeMerge
