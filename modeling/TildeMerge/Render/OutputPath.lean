import TildeMerge.Files.Path
import TildeMerge.Render.Engine

namespace TildeMerge.Engine

open TildeMerge.Path

def renderName (e : Engine) (record : Value) (name : Text) : Logged Text := do
  let (stem, extension) := splitExtension name
  let text ← e.render stem record
  return match extension with
    | none => text
    | some x => text ++ '.' :: x

def pushRendered (e : Engine) (record : Value) (target : Text) : List Component → Logged Text
  | [] => return target
  | .normal name :: rest => do
    let text ← e.renderName record name
    pushRendered e record (push target text) rest
  | c :: rest => pushRendered e record (push target c.text) rest

/-- The path that an output text names for a record. -/
def renderPath (e : Engine) (output : Text) (record : Value) : Logged Text := do
  let target ← e.pushRendered record [] (components output)
  Logged.tell (.outputPath output target)
  return target

end TildeMerge.Engine
