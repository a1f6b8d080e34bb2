import TildeMerge.Yaml.Cursor

namespace TildeMerge.Yaml

/-- How a scalar is written. Only a plain scalar can stand for something else than its text. -/
inductive Style where
  | plain
  | quoted
  deriving DecidableEq

inductive Token where
  | version (major minor : Nat)
  | tagPrefix (handle : Text) (uri : Bytes)
  | documentStart
  | documentEnd
  | blockSequence
  | blockMapping
  | blockEnd
  | openSequence
  | closeSequence
  | openMapping
  | closeMapping
  | entry
  | comma
  | key
  | value
  | alias (name : Text)
  | anchor (name : Text)
  | tag (handle : Text) (suffix : Bytes)
  | scalar (text : Text) (style : Style)
  deriving DecidableEq

end TildeMerge.Yaml
