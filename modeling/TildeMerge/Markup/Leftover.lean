import TildeMerge.Markup.Block

namespace TildeMerge.Markup

/-- A token of mark-up and the line it stands on, counted from one. -/
structure Leftover where
  line : Nat
  token : Text
  deriving DecidableEq, Repr

/-- Whether a tilde before this run is mark-up: a word character follows, perhaps after a dot. -/
def isMarkup : Text → Bool
  | '.' :: run => Text.startsWord run
  | run => Text.startsWord run

def leftoversFrom (line : Nat) : List (Char × Text) → List Leftover
  | [] => []
  | (c, run) :: rest =>
    if c == '\n' then leftoversFrom (line + 1) rest
    else if c == '~' && isMarkup run then ⟨line, c :: run⟩ :: leftoversFrom line rest
    else leftoversFrom line rest

def leftovers (t : Text) : List Leftover :=
  leftoversFrom 1 (runs t).rest

/-- Whether a leftover is an opener, other than a closer that stands alone. -/
def Leftover.isUnclosed (l : Leftover) : Bool :=
  l.token.take 2 == ['~', '.'] && l.token != '~' :: closer

end TildeMerge.Markup
