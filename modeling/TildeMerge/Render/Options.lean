import TildeMerge.Logged

namespace TildeMerge

inductive GapPolicy where
  | undefined
  | empty
  | strict
  deriving DecidableEq, Repr

def undefinedText : Text := ['u', 'n', 'd', 'e', 'f', 'i', 'n', 'e', 'd']

/-- The text for a path without a value. Every gap that is filled is reported. -/
def GapPolicy.fill (policy : GapPolicy) (path : Text) : Logged Text :=
  match policy with
  | undefined => do
    Logged.tell (.noValue path undefinedText)
    return undefinedText
  | empty => do
    Logged.tell (.noValue path [])
    return []
  | strict => Logged.fail (.missingField path)

structure Options where
  missing : GapPolicy := .undefined
  terminator : Text := ['\n']
  deriving DecidableEq, Repr

end TildeMerge
