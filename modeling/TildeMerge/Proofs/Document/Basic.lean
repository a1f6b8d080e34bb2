import TildeMerge.Proofs.Markup.Sections
import TildeMerge.Render.Engine

namespace TildeMerge

open Markup

def GapPolicy.fillText : GapPolicy → Text → Except Error Text
  | undefined, _ => .ok undefinedText
  | empty, _ => .ok []
  | strict, path => .error (.missingField path)

def insertedText (record : Value) (policy : GapPolicy) (path : Text) : Except Error Text :=
  match record.lookup path with
  | some v => .ok v.inserted
  | none => policy.fillText path

namespace Document

inductive BodyPart where
  | literal (t : Text)
  | item (path : Text)
  | scalar (path : Text)
  deriving DecidableEq, Repr

inductive Part where
  | literal (t : Text)
  | scalar (path : Text)
  | block (collection : Text) (body : List BodyPart)
  deriving DecidableEq, Repr

def BodyPart.print : BodyPart → Text
  | literal t => t
  | item path => '.' :: path
  | scalar path => '~' :: path

def printBody (body : List BodyPart) : Text :=
  body.flatMap BodyPart.print

def headRest (collection : Text) : Text :=
  Directives.forKeyword ++ ' ' :: '.' :: collection

def blockInside (collection : Text) (body : List BodyPart) : Text :=
  headRest collection ++ '\n' :: (printBody body ++ ['\n'])

def Part.print : Part → Text
  | literal t => t
  | scalar path => '~' :: path
  | block collection body => opener ++ blockInside collection body ++ closing

def print (d : List Part) : Text :=
  d.flatMap Part.print

/-- Literals hold no mark-up, paths are paths, and each of them ends where it is printed to end. A
value of the record must not continue a path of the item. -/
def BodyWellFormed : List BodyPart → Prop
  | [] => True
  | .literal t :: rest => '~' ∉ t ∧ '.' ∉ t ∧ BodyWellFormed rest
  | .item path :: rest =>
    path ≠ [] ∧ IsRun path ∧ EndsRun (printBody rest) ∧ (printBody rest).head? ≠ some '~' ∧
      BodyWellFormed rest
  | .scalar path :: rest =>
    path.startsWord = true ∧ IsRun path ∧ EndsRun (printBody rest) ∧ BodyWellFormed rest

def WellFormed : List Part → Prop
  | [] => True
  | .literal t :: rest => '~' ∉ t ∧ WellFormed rest
  | .scalar path :: rest =>
    path.startsWord = true ∧ IsRun path ∧ EndsRun (print rest) ∧ WellFormed rest
  | .block collection body :: rest =>
    collection ≠ [] ∧ IsRun collection ∧ BodyWellFormed body ∧ WellFormed rest

instance decidableBodyWellFormed : DecidablePred BodyWellFormed
  | [] => .isTrue trivial
  | .literal t :: rest =>
    have := decidableBodyWellFormed rest
    inferInstanceAs (Decidable ('~' ∉ t ∧ '.' ∉ t ∧ BodyWellFormed rest))
  | .item path :: rest =>
    have := decidableBodyWellFormed rest
    inferInstanceAs (Decidable (path ≠ [] ∧ IsRun path ∧ EndsRun (printBody rest) ∧
      (printBody rest).head? ≠ some '~' ∧ BodyWellFormed rest))
  | .scalar path :: rest =>
    have := decidableBodyWellFormed rest
    inferInstanceAs (Decidable (path.startsWord = true ∧ IsRun path ∧
      EndsRun (printBody rest) ∧ BodyWellFormed rest))

instance decidableWellFormed : DecidablePred WellFormed
  | [] => .isTrue trivial
  | .literal t :: rest =>
    have := decidableWellFormed rest
    inferInstanceAs (Decidable ('~' ∉ t ∧ WellFormed rest))
  | .scalar path :: rest =>
    have := decidableWellFormed rest
    inferInstanceAs (Decidable (path.startsWord = true ∧ IsRun path ∧ EndsRun (print rest) ∧
      WellFormed rest))
  | .block collection body :: rest =>
    have := decidableWellFormed rest
    inferInstanceAs (Decidable (collection ≠ [] ∧ IsRun collection ∧ BodyWellFormed body ∧
      WellFormed rest))

def BodyPart.scalars : BodyPart → List Text
  | scalar path => [path]
  | _ => []

def bodyScalars (body : List BodyPart) : List Text :=
  body.flatMap BodyPart.scalars

def Part.scalars : Part → List Text
  | literal _ => []
  | scalar path => [path]
  | block _ body => bodyScalars body

def scalars (d : List Part) : List Text :=
  d.flatMap Part.scalars

variable (record : Value) (options : Options)

def BodyPart.eval (item : Value) : BodyPart → Except Error Text
  | literal t => .ok t
  | .item path => insertedText item options.missing path
  | scalar path => insertedText record options.missing path

def evalBody (item : Value) (body : List BodyPart) : Except Error Text :=
  List.flatten <$> body.mapM (BodyPart.eval record options item)

def evalItems (body : List BodyPart) (items : List Value) : Except Error Text :=
  List.flatten <$> items.mapM fun item ↦
    (· ++ options.terminator) <$> evalBody record options item body

/-- The fields that a body takes from the record are asked for even if there is no item. -/
def Part.eval : Part → Except Error Text
  | literal t => .ok t
  | scalar path => insertedText record options.missing path
  | block collection body => do
    let _ ← (bodyScalars body).mapM (insertedText record options.missing)
    match record.lookup collection with
    | some (.list items) => evalItems record options body items
    | some _ => .error (.notACollection collection)
    | none => (fun _ ↦ []) <$> options.missing.fillText collection

def eval (d : List Part) : Except Error Text :=
  List.flatten <$> d.mapM (Part.eval record options)

/-- What a part takes from the record holds no tilde, and in a body no dot either. -/
def Part.PlainValues : Part → Prop
  | literal _ => True
  | scalar path => ∀ t, insertedText record options.missing path = .ok t → '~' ∉ t
  | block _ body => ∀ path ∈ bodyScalars body, ∀ t,
      insertedText record options.missing path = .ok t → '~' ∉ t ∧ '.' ∉ t

def PlainValues (d : List Part) : Prop :=
  ∀ part ∈ d, part.PlainValues record options

instance decidableOfOk {P : Text → Prop} [DecidablePred P] :
    (x : Except Error Text) → Decidable (∀ t, x = .ok t → P t)
  | .ok t => decidable_of_iff (P t) (by simp)
  | .error _ => .isTrue (by simp)

instance : DecidablePred (Part.PlainValues record options)
  | .literal _ => .isTrue trivial
  | .scalar path => inferInstanceAs (Decidable (∀ t,
      insertedText record options.missing path = .ok t → '~' ∉ t))
  | .block _ body => inferInstanceAs (Decidable (∀ path ∈ bodyScalars body, ∀ t,
      insertedText record options.missing path = .ok t → '~' ∉ t ∧ '.' ∉ t))

instance : DecidablePred (PlainValues record options) := fun d ↦
  inferInstanceAs (Decidable (∀ part ∈ d, part.PlainValues record options))

end Document

end TildeMerge
