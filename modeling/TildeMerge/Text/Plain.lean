import TildeMerge.Text.Utf8

namespace TildeMerge.Text

def escape : Char := '\x1B'

def bell : Char := '\x07'

/-- A sequence that an escape character has begun, as far as it has been read. -/
inductive Sequence where
  | opened
  | designation
  | control
  | deviceStart
  | deviceParameters
  | deviceIntermediate
  | string
  | command
  deriving DecidableEq, Repr

def isBetween (first last c : Char) : Bool :=
  first ≤ c && c ≤ last

/-- Whether a byte of the character is the string terminator, `9C`. -/
def endsString (c : Char) : Bool :=
  (Utf8.encode [c]).contains 0x9C

namespace Sequence

def next (s : Sequence) (c : Char) : Option Sequence :=
  match s with
  | opened =>
    if c = '[' then some control
    else if c = ']' then some command
    else if c = 'P' then some deviceStart
    else if c = 'X' || c = '^' || c = '_' then some string
    else if isBetween ' ' '/' c then some designation
    else if isBetween '0' '~' c then none
    else some opened
  | designation => if isBetween '0' '~' c then none else some designation
  | control => if isBetween '@' '~' c then none else some control
  | deviceStart =>
    if isBetween ' ' '/' c then some deviceIntermediate
    else if isBetween '0' '?' c then some deviceParameters
    else if isBetween '@' '~' c then some string
    else some deviceStart
  | deviceParameters =>
    if isBetween ' ' '/' c then some deviceIntermediate
    else if isBetween '<' '~' c then some string
    else some deviceParameters
  | deviceIntermediate => if isBetween '0' '~' c then some string else some deviceIntermediate
  | string => if endsString c then none else some string
  | command => if c = bell then none else some command

/-- Whether blanks inside the sequence are shown: those of a string are part of the string. -/
def letsBlanks : Sequence → Bool
  | opened | designation | control => true
  | _ => false

end Sequence

def isLayout (c : Char) : Bool :=
  c = '\t' || c = '\n' || c = '\x0C' || c = '\r'

def isControl (c : Char) : Bool :=
  c < ' ' || c = '\x7F'

def isShown (c : Char) : Bool :=
  !isControl c || isLayout c

inductive Reading where
  /-- In text. If a blank stood inside a sequence, that sequence waits for the next control. -/
  | text (waiting : Option Sequence)
  | within (s : Sequence)
  deriving DecidableEq, Repr

namespace Reading

def shows : Reading → Char → Bool
  | text _, c => isShown c
  | within s, c => isLayout c && s.letsBlanks

/-- Where the reader stands after a character. An escape begins anew, and a cancel or a substitute
ends whatever has begun; a character beyond ASCII in a text ends what waits there. -/
def step (r : Reading) (c : Char) : Reading :=
  if c = escape then within .opened
  else if c = '\x18' || c = '\x1A' then text none
  else match r with
    | text waiting =>
      if '\x7F' < c then text none
      else if isShown c then text waiting
      else match waiting with
        | some s => within s
        | none => text none
    | within s =>
      if isLayout c && s.letsBlanks then text (some s)
      else match s.next c with
        | some s => within s
        | none => text none

def plain : Reading → Text → Text
  | _, [] => []
  | r, c :: t =>
    let rest := plain (r.step c) t
    if r.shows c then c :: rest else rest

end Reading

/-- The text without controls and without what is meant for a terminal. -/
def plain (t : Text) : Text :=
  Reading.plain (.text none) t

theorem Reading.isShown_of_shows {r : Reading} {c : Char} (h : r.shows c) : isShown c := by
  cases r with
  | text waiting => exact h
  | within s =>
    have hc : isLayout c := (Bool.and_eq_true_iff.1 h).1
    simp [isShown, hc]

theorem Reading.isShown_of_mem_plain {r : Reading} {t : Text} {c : Char} (h : c ∈ r.plain t) :
    isShown c := by
  induction t generalizing r with
  | nil => simp [Reading.plain] at h
  | cons d t ih =>
    by_cases hd : r.shows d
    · rcases List.mem_cons.1 (by simpa [Reading.plain, hd] using h) with rfl | h
      · exact isShown_of_shows hd
      · exact ih h
    · exact ih (by simpa [Reading.plain, hd] using h)

theorem isShown_of_mem_plain {t : Text} {c : Char} (h : c ∈ plain t) : isShown c :=
  Reading.isShown_of_mem_plain h

theorem Reading.step_text {c : Char} (h : isShown c) :
    (Reading.text none).step c = .text none := by
  have he : c ≠ escape := by rintro rfl; exact absurd h (by decide)
  simp [Reading.step, he, h]

theorem plain_eq_self {t : Text} (h : ∀ c ∈ t, isShown c) : plain t = t := by
  induction t with
  | nil => rfl
  | cons c t ih =>
    have hc : isShown c := h c (by simp)
    have ht : Reading.plain (.text none) t = t := ih fun d hd ↦ h d (by simp [hd])
    simp [plain, Reading.plain, Reading.shows, Reading.step_text hc, hc, ht]

end TildeMerge.Text
