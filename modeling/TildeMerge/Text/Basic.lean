namespace TildeMerge

abbrev Text := List Char

abbrev Bytes := List UInt8

/-- Word characters start a path: the ASCII letters and digits, and the underscore. -/
def isWordChar (c : Char) : Bool :=
  c.isAlphanum || c == '_'

/-- Path characters continue a path: the word characters and the dot. -/
def isPathChar (c : Char) : Bool :=
  isWordChar c || c == '.'

namespace Text

def isWithin (ranges : List (Nat × Nat)) (c : Char) : Bool :=
  ranges.any fun (first, last) ↦ first ≤ c.toNat && c.toNat ≤ last

/-- The number of bytes that a text takes in UTF-8. Every offset counts these. -/
def size (t : Text) : Nat :=
  t.foldr (fun c n ↦ c.utf8Size + n) 0

def startsWord : Text → Bool
  | [] => false
  | c :: _ => isWordChar c

def firstLine (t : Text) : Text :=
  t.takeWhile (· != '\n')

def afterFirstBreak (t : Text) : Option Text :=
  match t.dropWhile (· != '\n') with
  | [] => none
  | _ :: rest => some rest

def beforeLastBreak (t : Text) : Option Text :=
  match t.reverse.dropWhile (· != '\n') with
  | [] => none
  | _ :: rest => some rest.reverse

@[simp] theorem size_nil : size [] = 0 := rfl

@[simp] theorem size_cons (c : Char) (t : Text) : size (c :: t) = c.utf8Size + size t := rfl

@[simp] theorem size_append (t u : Text) : size (t ++ u) = size t + size u := by
  induction t with
  | nil => simp
  | cons c t ih => rw [List.cons_append, size_cons, size_cons, ih, Nat.add_assoc]

end Text

end TildeMerge
