import TildeMerge.Json.Writer

namespace TildeMerge.Value

open Number

mutual

/-- The text that stands for a value. A null gives nothing, and a number without a fraction is
written without one. -/
def inserted : Value → Text
  | null => []
  | bool b => Json.boolText b
  | int n => intText n
  | real x => if x.isWhole then wholeText x else Layout.plain.text x
  | text t => t
  | list items => insertedItems items
  | record fields => Json.write (record fields)

def insertedItems : List Value → Text
  | [] => []
  | [v] => inserted v
  | v :: rest => inserted v ++ ',' :: insertedItems rest

end

end TildeMerge.Value
