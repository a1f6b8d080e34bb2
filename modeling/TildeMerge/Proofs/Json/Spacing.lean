import TildeMerge.Json.Reader
import TildeMerge.Proofs.Text.Trimming

namespace TildeMerge.Json

open Text Number

variable {c : Char} {s t w : Text} {st : State}

theorem start_of_isBlank (h : isBlank c) :
    start c = if isSpace c then some ([], .between) else none := by
  have hne (d : Char) (hd : '!' ≤ d ∧ d ≤ '~') := beq_of_isBlank h hd
  simp [start, hne '[' (by decide), hne ']' (by decide), hne '{' (by decide), hne '}' (by decide),
    hne ',' (by decide), hne ':' (by decide), hne '"' (by decide), hne '-' (by decide),
    isLower_of_isBlank h, isDigit_of_isBlank h]

theorem isNumberChar_of_isBlank (h : isBlank c) : isNumberChar c = false := by
  have hne (d : Char) (hd : '!' ≤ d ∧ d ≤ '~') := beq_of_isBlank h hd
  simp [isNumberChar, hne '-' (by decide), hne '+' (by decide), hne '.' (by decide),
    hne 'e' (by decide), hne 'E' (by decide), isDigit_of_isBlank h]

theorem unescape_of_isBlank (h : isBlank c) : unescape c = none := by
  have hne (d : Char) (hd : '!' ≤ d ∧ d ≤ '~') := beq_of_isBlank h hd
  simp [unescape, hne '"' (by decide), hne '\\' (by decide), hne '/' (by decide), hne 'b' (by decide),
    hne 'f' (by decide), hne 'n' (by decide), hne 'r' (by decide), hne 't' (by decide)]

theorem hexValue_of_isBlank (h : isBlank c) : hexValue c = none := by
  have hlower : ¬('a' ≤ c ∧ c ≤ 'f') := not_within_of_isBlank h (by decide) (by decide)
  have hupper : ¬('A' ≤ c ∧ c ≤ 'F') := not_within_of_isBlank h (by decide) (by decide)
  simp [hexValue, isDigit_of_isBlank h, hlower, hupper]

theorem finish_of_isBlank (h : isBlank c) (v : Option Value) :
    finish v c = if isSpace c then v.map fun v ↦ ([.atom v], .between) else none := by
  rw [finish, start_of_isBlank h]
  cases v <;> cases isSpace c <;> rfl

theorem tokensFrom_singleton (h : isBlank c) (st : State) :
    tokensFrom st [c] = if isSpace c then atEnd st else none := by
  have hne (d : Char) (hd : '!' ≤ d ∧ d ≤ '~') := beq_of_isBlank h hd
  cases st with
  | between =>
    simp only [tokensFrom, step, start_of_isBlank h]
    split <;> rfl
  | word seen =>
    simp only [tokensFrom, step, isLower_of_isBlank h, finish_of_isBlank h]
    cases hr : readWord seen.reverse <;> cases isSpace c <;> simp [hr, atEnd]
  | number seen =>
    simp only [tokensFrom, step, isNumberChar_of_isBlank h, finish_of_isBlank h]
    cases hr : readNumber seen.reverse <;> cases isSpace c <;> simp [hr, atEnd]
  | text seen =>
    simp only [tokensFrom, step, hne '"' (by decide), hne '\\' (by decide)]
    by_cases hc : c < ' ' <;> simp [hc, atEnd]
  | escape seen =>
    simp [tokensFrom, step, hne 'u' (by decide), unescape_of_isBlank h, atEnd]
  | code seen high count value => simp [tokensFrom, step, hexValue_of_isBlank h, atEnd]
  | high seen unit => simp [tokensFrom, step, hne '\\' (by decide), atEnd]
  | highEscape seen unit => simp [tokensFrom, step, hne 'u' (by decide), atEnd]

theorem tokensFrom_concat (h : isBlank c) (st : State) (t : Text) :
    tokensFrom st (t ++ [c]) = if isSpace c then tokensFrom st t else none := by
  induction t generalizing st with
  | nil => exact tokensFrom_singleton h st
  | cons d t ih =>
    rw [List.cons_append, tokensFrom, tokensFrom]
    cases step st d with
    | none => simp
    | some p =>
      simp only [ih, Option.bind_eq_bind, Option.bind_some]
      split <;> rfl

theorem tokens_append (h : ∀ c ∈ w, isBlank c) (t : Text) :
    tokens (t ++ w) = if w.all isSpace then tokens t else none := by
  induction w using List.reverseRecOn with
  | nil => rw [List.append_nil, List.all_nil, if_pos rfl]
  | append_singleton w c ih =>
    rw [← List.append_assoc, tokens, tokensFrom_concat (h c (by simp)), ← tokens,
      ih fun d hd ↦ h d (by simp [hd]), List.all_append, List.all_cons, List.all_nil, Bool.and_true]
    cases isSpace c with
    | false => simp
    | true => rw [Bool.and_true, if_pos rfl]

theorem tokens_cons (h : isBlank c) (t : Text) :
    tokens (c :: t) = if isSpace c then tokens t else none := by
  rw [tokens, tokensFrom, step, start_of_isBlank h]
  cases isSpace c with
  | false => rfl
  | true => cases ht : tokensFrom .between t <;> simp [tokens, ht]

theorem tokens_append_left (h : ∀ c ∈ s, isBlank c) (t : Text) :
    tokens (s ++ t) = if s.all isSpace then tokens t else none := by
  induction s with
  | nil => rfl
  | cons c s ih =>
    rw [List.cons_append, tokens_cons (h c (by simp)), ih fun d hd ↦ h d (by simp [hd]), List.all_cons]
    cases isSpace c <;> rfl

/-- White space around a text makes no difference if it is spacing, and no JSON if it is not. -/
theorem read_between (hs : ∀ c ∈ s, isBlank c) (hw : ∀ c ∈ w, isBlank c) (t : Text) :
    read (s ++ (t ++ w)) = if s.all isSpace && w.all isSpace then read t else none := by
  have htokens : tokens (s ++ (t ++ w)) =
      if s.all isSpace && w.all isSpace then tokens t else none := by
    rw [tokens_append_left hs, tokens_append hw]
    cases s.all isSpace <;> rfl
  rw [read, htokens]
  split <;> rfl

theorem read_trim {v : Value} (h : read t = some v) : read t.trim = some v := by
  obtain ⟨s, w, ht, hs, hw⟩ := exists_trim t
  have hbetween := read_between hs hw t.trim
  rw [← ht, h] at hbetween
  split at hbetween
  · exact hbetween.symm
  · cases hbetween

end TildeMerge.Json
