import TildeMerge.Text.Basic

namespace TildeMerge.Markup

/-- A text as the run of path characters it starts with, and then its other characters in order,
each with the run of path characters that follows it. -/
structure Runs where
  first : Text
  rest : List (Char × Text)
  deriving DecidableEq, Repr

def runs : Text → Runs
  | [] => ⟨[], []⟩
  | c :: t =>
    let r := runs t
    if isPathChar c then ⟨c :: r.first, r.rest⟩ else ⟨[], (c, r.first) :: r.rest⟩

def Runs.text (r : Runs) : Text :=
  r.first ++ r.rest.flatMap fun (c, run) ↦ c :: run

@[simp] theorem text_runs (t : Text) : (runs t).text = t := by
  induction t with
  | nil => rfl
  | cons c t ih => by_cases h : isPathChar c <;> simp_all [runs, Runs.text]

end TildeMerge.Markup
