import TildeMerge.Json.Writer
import TildeMerge.Json.Reader

namespace TildeMerge.Json

open Number

variable {c : Char} {t w rest seen : Text} {p q : State} {k : Token} {v : Value}

theorem tokensFrom_silent (h : step p c = some ([], q)) (t : Text) :
    tokensFrom p (c :: t) = tokensFrom q t := by
  rw [tokensFrom, h]
  cases ht : tokensFrom q t <;> simp [ht]

theorem tokensFrom_token (h : step p c = some ([k], q)) (t : Text) :
    tokensFrom p (c :: t) = (tokensFrom q t).map (k :: ·) := by
  rw [tokensFrom, h]
  cases ht : tokensFrom q t <;> simp [ht]

theorem hexValue_hexDigit : ∀ n < 16, hexValue (hexDigit n) = some n := by decide

theorem tokensFrom_code (h : c < ' ') (seen rest : Text) :
    tokensFrom (.text seen)
      ('\\' :: 'u' :: '0' :: '0' :: hexDigit (c.toNat / 16) :: hexDigit (c.toNat % 16) :: rest) =
      tokensFrom (.text (c :: seen)) rest := by
  have hlt : c.toNat < 32 := h
  have hhigh := hexValue_hexDigit (c.toNat / 16) (by omega)
  have hlow := hexValue_hexDigit (c.toNat % 16) (by omega)
  have hzero : hexValue '0' = some 0 := by decide
  have hvalue : c.toNat / 16 * 16 + c.toNat % 16 = c.toNat := by omega
  have hend : endCode seen none c.toNat = some (.text (c :: seen)) := by
    have hhigh : ¬0xD800 ≤ c.toNat := by omega
    have hlow : ¬0xDC00 ≤ c.toNat := by omega
    simp [endCode, hhigh, hlow]
  rw [tokensFrom_silent (q := .escape seen) rfl, tokensFrom_silent (q := .code seen none 0 0) rfl,
    tokensFrom_silent (q := .code seen none 1 0), tokensFrom_silent (q := .code seen none 2 0),
    tokensFrom_silent (q := .code seen none 3 (c.toNat / 16)),
    tokensFrom_silent (q := .text (c :: seen))]
  · simp [step, hlow, hvalue, hend]
  · simp [step, hhigh]
  · simp [step, hzero]
  · simp [step, hzero]

def letters : List (Char × Char) :=
  [('"', '"'), ('\\', '\\'), ('\x08', 'b'), ('\x0c', 'f'), ('\n', 'n'), ('\r', 'r'), ('\t', 't')]

theorem escapeChar_of_mem :
    ∀ p ∈ letters, escapeChar p.1 = ['\\', p.2] ∧ unescape p.2 = some p.1 ∧ (p.2 == 'u') = false := by
  decide

theorem escapeChar_of_notMem (h : c ∉ letters.map Prod.fst) :
    escapeChar c = if c < ' ' then
      ['\\', 'u', '0', '0', hexDigit (c.toNat / 16), hexDigit (c.toNat % 16)] else [c] := by
  simp only [letters, List.map_cons, List.map_nil, List.mem_cons, List.not_mem_nil, or_false,
    not_or] at h
  simp [escapeChar, h]

theorem tokensFrom_escapeChar (c : Char) (seen rest : Text) :
    tokensFrom (.text seen) (escapeChar c ++ rest) = tokensFrom (.text (c :: seen)) rest := by
  by_cases hletter : c ∈ letters.map Prod.fst
  · obtain ⟨⟨d, e⟩, hmem, rfl⟩ := List.mem_map.1 hletter
    obtain ⟨hescape, hread, hu⟩ := escapeChar_of_mem _ hmem
    rw [hescape, List.cons_append, List.singleton_append,
      tokensFrom_silent (q := .escape seen) rfl, tokensFrom_silent (q := .text (d :: seen))]
    simp [step, hu, hread]
  · rw [escapeChar_of_notMem hletter]
    by_cases hcontrol : c < ' '
    · rw [if_pos hcontrol]
      exact tokensFrom_code hcontrol seen rest
    · have hquote : c ≠ '"' := fun h ↦ hletter (by simp [letters, h])
      have hslash : c ≠ '\\' := fun h ↦ hletter (by simp [letters, h])
      rw [if_neg hcontrol, List.singleton_append, tokensFrom_silent]
      simp [step, hquote, hslash, hcontrol]

theorem tokensFrom_text (seen t rest : Text) :
    tokensFrom (.text seen) (t.flatMap escapeChar ++ '"' :: rest) =
      (tokensFrom .between rest).map (.text (seen.reverse ++ t) :: ·) := by
  induction t generalizing seen with
  | nil =>
    rw [List.append_nil]
    exact tokensFrom_token rfl rest
  | cons c t ih =>
    rw [List.flatMap_cons, List.append_assoc, tokensFrom_escapeChar, ih]
    simp

theorem tokensFrom_quote (t rest : Text) :
    tokensFrom .between (quote t ++ rest) = (tokensFrom .between rest).map (.text t :: ·) := by
  have hquote : quote t ++ rest = '"' :: (t.flatMap escapeChar ++ '"' :: rest) := by
    simp [quote]
  rw [hquote, tokensFrom_silent (q := .text []) rfl, tokensFrom_text]
  rfl

/-- The text does not continue a number or a word that stands before it. -/
def EndsToken (t : Text) : Prop :=
  ∀ c ∈ t.head?, c.isLower = false ∧ isNumberChar c = false

theorem endsToken_nil : EndsToken [] := by
  intro c hc
  cases hc

theorem endsToken_cons (h : c.isLower = false ∧ isNumberChar c = false) : EndsToken (c :: t) := by
  intro d hd
  obtain rfl : c = d := Option.some.inj hd
  exact h

theorem tokensFrom_word_append (hw : ∀ c ∈ w, c.isLower = true) (seen rest : Text) :
    tokensFrom (.word seen) (w ++ rest) = tokensFrom (.word (w.reverse ++ seen)) rest := by
  induction w generalizing seen with
  | nil => rfl
  | cons c w ih =>
    rw [List.forall_mem_cons] at hw
    rw [List.cons_append, tokensFrom_silent (q := .word (c :: seen)), ih hw.2]
    · simp
    · simp [step, hw.1]

theorem tokensFrom_number_append (hw : ∀ c ∈ w, isNumberChar c = true) (seen rest : Text) :
    tokensFrom (.number seen) (w ++ rest) = tokensFrom (.number (w.reverse ++ seen)) rest := by
  induction w generalizing seen with
  | nil => rfl
  | cons c w ih =>
    rw [List.forall_mem_cons] at hw
    rw [List.cons_append, tokensFrom_silent (q := .number (c :: seen)), ih hw.2]
    · simp
    · simp [step, hw.1]

theorem tokensFrom_finish (h : step p c = finish (some v) c) (t : Text) :
    tokensFrom p (c :: t) = (tokensFrom .between (c :: t)).map (.atom v :: ·) := by
  rw [tokensFrom, tokensFrom, h]
  simp only [finish, step]
  cases hstart : start c with
  | none => rfl
  | some started =>
    obtain ⟨tokens, q⟩ := started
    cases ht : tokensFrom q t <;> simp [ht]

theorem tokensFrom_word_end (hrest : EndsToken rest) (hv : readWord seen.reverse = some v) :
    tokensFrom (.word seen) rest = (tokensFrom .between rest).map (.atom v :: ·) := by
  cases rest with
  | nil => simp [tokensFrom, atEnd, hv]
  | cons c rest =>
    obtain ⟨hlower, -⟩ := hrest c rfl
    apply tokensFrom_finish
    simp [step, hlower, hv]

theorem tokensFrom_number_end (hrest : EndsToken rest) (hv : readNumber seen.reverse = some v) :
    tokensFrom (.number seen) rest = (tokensFrom .between rest).map (.atom v :: ·) := by
  cases rest with
  | nil => simp [tokensFrom, atEnd, hv]
  | cons c rest =>
    obtain ⟨-, hnumber⟩ := hrest c rfl
    apply tokensFrom_finish
    simp [step, hnumber, hv]

theorem tokensFrom_word (hrest : EndsToken rest) (hc : step .between c = some ([], .word [c]))
    (hw : ∀ d ∈ w, d.isLower = true) (hv : readWord (c :: w) = some v) :
    tokensFrom .between (c :: w ++ rest) = (tokensFrom .between rest).map (.atom v :: ·) := by
  rw [List.cons_append, tokensFrom_silent hc, tokensFrom_word_append hw]
  apply tokensFrom_word_end hrest
  simpa using hv

theorem tokensFrom_number (hrest : EndsToken rest) (hc : step .between c = some ([], .number [c]))
    (hw : ∀ d ∈ w, isNumberChar d = true) (hv : readNumber (c :: w) = some v) :
    tokensFrom .between (c :: w ++ rest) = (tokensFrom .between rest).map (.atom v :: ·) := by
  rw [List.cons_append, tokensFrom_silent hc, tokensFrom_number_append hw]
  apply tokensFrom_number_end hrest
  simpa using hv

end TildeMerge.Json
