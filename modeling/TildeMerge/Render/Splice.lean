import TildeMerge.Data.Insertion
import TildeMerge.Markup.Placeholder
import TildeMerge.Render.Options

namespace TildeMerge

open Markup

/-- The text of the pieces, with each placeholder replaced by what its path stands for. What is put in
is not read again. -/
def splice (resolve : Text → Logged Text) : List Piece → Logged Text
  | [] => return []
  | .plain c :: rest => (c :: ·) <$> splice resolve rest
  | .placeholder path :: rest => do
    let text ← resolve path
    (text ++ ·) <$> splice resolve rest

def resolveIn (record : Value) (policy : GapPolicy) (path : Text) : Logged Text :=
  match record.lookup path with
  | some v => return v.inserted
  | none => policy.fill path

end TildeMerge
