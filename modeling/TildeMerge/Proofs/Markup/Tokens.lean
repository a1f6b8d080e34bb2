import TildeMerge.Markup.Leftover
import TildeMerge.Proofs.Markup.Leftovers
import TildeMerge.Proofs.Text.LineNumbers

namespace TildeMerge.Markup

variable {c : Char} {s t u run token : Text} {n k : Nat}

def IsToken (marker token : Text) : Prop :=
  ∃ w run, isWordChar w = true ∧ IsRun run ∧ token = marker ++ w :: run

/-- A token of a placeholder, or one of an opener or a closer. -/
def IsMark (token : Text) : Prop :=
  IsToken ['~'] token ∨ IsToken opener token

/-- The token stands at the byte offset, and no path character follows it there. -/
def StandsAt (token t : Text) (n : Nat) : Prop :=
  ∃ s u, t = s ++ (token ++ u) ∧ s.size = n ∧ EndsRun u

/-- All places where tokens of a kind stand in a text, from left to right. -/
structure Lists (p : Text → Prop) (t : Text) (places : List (Nat × Text)) : Prop where
  ordered : places.Pairwise fun a b ↦ a.1 < b.1
  mem_iff : ∀ n token, (n, token) ∈ places ↔ p token ∧ StandsAt token t n

def leftoverAt (t : Text) (p : Nat × Text) : Leftover :=
  ⟨t.lineAt p.1, p.2⟩

def runTokens (offset : Nat) : List (Char × Text) → List (Nat × Text)
  | [] => []
  | (c, run) :: rest =>
    let later := runTokens (offset + Text.size (c :: run)) rest
    if c == '~' && isMarkup run then (offset, c :: run) :: later else later

def tokensFrom (offset : Nat) (t : Text) : List (Nat × Text) :=
  runTokens (offset + (runs t).first.size) (runs t).rest

theorem tokensFrom_cons (n : Nat) (c : Char) (t : Text) : tokensFrom n (c :: t) =
    if c == '~' && isMarkup (runs t).first then
      (n, c :: (runs t).first) :: tokensFrom (n + c.utf8Size) t
    else tokensFrom (n + c.utf8Size) t := by
  have hsize : n + Text.size (c :: (runs t).first) = n + c.utf8Size + (runs t).first.size := by
    rw [Text.size_cons, Nat.add_assoc]
  cases hc : isPathChar c
  · rw [tokensFrom, runs_cons_break hc, runTokens, Text.size_nil, Nat.add_zero, hsize]
    rfl
  · have hne : (c == '~') = false := by
      rw [beq_eq_false_iff_ne]
      rintro rfl
      cases hc
    rw [tokensFrom, runs_cons_path hc, hsize, hne]
    rfl

theorem leftoversFrom_cons (line : Nat) (c : Char) (t : Text) :
    leftoversFrom line (runs (c :: t)).rest =
      if c == '\n' then leftoversFrom (line + 1) (runs t).rest
      else if c == '~' && isMarkup (runs t).first then
        ⟨line, c :: (runs t).first⟩ :: leftoversFrom line (runs t).rest
      else leftoversFrom line (runs t).rest := by
  cases hc : isPathChar c
  · rw [runs_cons_break hc, leftoversFrom]
  · have hbreak : (c == '\n') = false := by
      rw [beq_eq_false_iff_ne]
      rintro rfl
      cases hc
    have htilde : (c == '~') = false := by
      rw [beq_eq_false_iff_ne]
      rintro rfl
      cases hc
    rw [runs_cons_path hc, hbreak, htilde]
    rfl

/-- Leftovers are the tokens with their lines. The induction is on what stands behind the text `s`. -/
theorem leftoversFrom_eq (s t : Text) : leftoversFrom (1 + s.count '\n') (runs t).rest =
    (tokensFrom s.size t).map (leftoverAt (s ++ t)) := by
  induction t generalizing s with
  | nil => rfl
  | cons c t ih =>
    have hrest := ih (s ++ [c])
    have hwhole : s ++ [c] ++ t = s ++ c :: t := List.append_cons s c t ▸ rfl
    have hsize : (s ++ [c]).size = s.size + c.utf8Size := by
      rw [Text.size_append]
      rfl
    rw [hwhole, hsize, List.count_append] at hrest
    rw [leftoversFrom_cons, tokensFrom_cons]
    by_cases hbreak : c = '\n'
    · subst hbreak
      exact hrest
    · have hcount : List.count '\n' [c] = 0 := List.count_eq_zero.2 (by simpa using Ne.symm hbreak)
      rw [hcount, Nat.add_zero] at hrest
      rw [if_neg (mt beq_iff_eq.1 hbreak), hrest]
      split
      · rw [List.map_cons, leftoverAt, Text.lineAt_size]
      · rfl

theorem exists_word_iff : (∃ w r, isWordChar w = true ∧ IsRun r ∧ run = w :: r) ↔
    IsRun run ∧ run.startsWord = true := by
  constructor
  · rintro ⟨w, r, hw, hr, rfl⟩
    have hpath : isPathChar w = true := by simp [isPathChar, hw]
    exact ⟨List.forall_mem_cons.2 ⟨hpath, hr⟩, hw⟩
  · rintro ⟨hrun, hword⟩
    cases run with
    | nil => cases hword
    | cons w r => exact ⟨w, r, hword, (List.forall_mem_cons.1 hrun).2, rfl⟩

theorem isToken_append {marker : Text} :
    IsToken marker (marker ++ run) ↔ IsRun run ∧ run.startsWord = true := by
  simp only [IsToken, List.append_cancel_left_eq, exists_word_iff]

theorem isMark_iff : IsMark ('~' :: run) ↔ IsRun run ∧ isMarkup run = true := by
  have htilde : IsToken ['~'] ('~' :: run) ↔ IsRun run ∧ run.startsWord = true :=
    isToken_append
  by_cases hdot : ∃ r : Text, run = '.' :: r
  · -- Behind a dot it can only be an opener or a closer.
    obtain ⟨r, rfl⟩ := hdot
    have hopener : IsToken opener ('~' :: '.' :: r) ↔ IsRun r ∧ r.startsWord = true :=
      isToken_append
    have hword : Text.startsWord ('.' :: r) = false := rfl
    have hrun : IsRun ('.' :: r) ↔ IsRun r := by
      rw [IsRun, List.forall_mem_cons]
      exact and_iff_right isPathChar_dot
    rw [IsMark, htilde, hopener, hword, hrun]
    simp [isMarkup]
  · have hopener : ¬ IsToken opener ('~' :: run) := by
      rintro ⟨w, r, -, -, heq⟩
      exact hdot ⟨w :: r, (List.cons.inj heq).2⟩
    have hmarkup : isMarkup run = run.startsWord := by
      cases run with
      | nil => rfl
      | cons c r =>
        have hc : c ≠ '.' := by
          rintro rfl
          exact hdot ⟨r, rfl⟩
        simp [isMarkup, hc]
    rw [IsMark, htilde, or_iff_left hopener, hmarkup]

theorem IsMark.exists_tilde (h : IsMark token) : ∃ run, token = '~' :: run := by
  rcases h with ⟨w, run, -, -, rfl⟩ | ⟨w, run, -, -, rfl⟩
  · exact ⟨w :: run, rfl⟩
  · exact ⟨'.' :: w :: run, rfl⟩

theorem standsAt_zero : StandsAt token t 0 ↔ ∃ u, t = token ++ u ∧ EndsRun u := by
  constructor
  · rintro ⟨w, u, rfl, hsize, hu⟩
    obtain rfl := Text.eq_nil_of_size_eq_zero hsize
    exact ⟨u, rfl, hu⟩
  · rintro ⟨u, rfl, hu⟩
    exact ⟨[], u, rfl, rfl, hu⟩

theorem starts_iff : IsMark token ∧ StandsAt token (c :: t) 0 ↔
    (c == '~' && isMarkup (runs t).first) = true ∧ token = c :: (runs t).first := by
  rw [standsAt_zero]
  constructor
  · rintro ⟨hmark, u, htext, hu⟩
    obtain ⟨run, rfl⟩ := hmark.exists_tilde
    obtain ⟨rfl, ht⟩ := List.cons.inj htext
    obtain ⟨hrun, hmarkup⟩ := isMark_iff.1 hmark
    have hfirst : (runs t).first = run := by
      rw [show t = run ++ u from ht, runs_run_append hrun, first_eq_nil hu, List.append_nil]
    exact ⟨by simp [hfirst, hmarkup], by rw [hfirst]⟩
  · rintro ⟨hstart, rfl⟩
    obtain ⟨hc, hmarkup⟩ := Bool.and_eq_true_iff.1 hstart
    obtain rfl := beq_iff_eq.1 hc
    obtain ⟨u, ht, hu⟩ := exists_endsRun t
    exact ⟨isMark_iff.2 ⟨isRun_first t, hmarkup⟩, u, congrArg _ ht, hu⟩

theorem standsAt_cons : StandsAt token (c :: t) n ↔
    (n = 0 ∧ StandsAt token (c :: t) 0) ∨ ∃ j, n = c.utf8Size + j ∧ StandsAt token t j := by
  constructor
  · rintro ⟨s, u, htext, rfl, hu⟩
    cases s with
    | nil => exact .inl ⟨rfl, standsAt_zero.2 ⟨u, htext, hu⟩⟩
    | cons d s =>
      obtain ⟨rfl, ht⟩ := List.cons.inj htext
      exact .inr ⟨Text.size s, Text.size_cons c s, s, u, ht, rfl, hu⟩
  · rintro (⟨rfl, hstart⟩ | ⟨j, rfl, s, u, rfl, rfl, hu⟩)
    · exact hstart
    · exact ⟨c :: s, u, rfl, Text.size_cons c s, hu⟩

theorem mem_tokensFrom : (k, token) ∈ tokensFrom n t ↔
    ∃ j, k = n + j ∧ IsMark token ∧ StandsAt token t j := by
  induction t generalizing n with
  | nil =>
    refine iff_of_false List.not_mem_nil ?_
    rintro ⟨j, -, hmark, s, u, hnil, -⟩
    obtain ⟨run, rfl⟩ := hmark.exists_tilde
    simp at hnil
  | cons c t ih =>
    have hhere : (k, token) ∈ tokensFrom n (c :: t) ↔
        (k = n ∧ IsMark token ∧ StandsAt token (c :: t) 0) ∨
          (k, token) ∈ tokensFrom (n + c.utf8Size) t := by
      rw [starts_iff, tokensFrom_cons]
      split
      · rename_i hstart
        rw [List.mem_cons, Prod.mk.injEq, and_iff_right hstart]
      · rename_i hstart
        rw [or_iff_right]
        rintro ⟨-, hstart', -⟩
        exact hstart hstart'
    rw [hhere, ih]
    constructor
    · rintro (⟨rfl, hmark, hstart⟩ | ⟨j, rfl, hmark, hstands⟩)
      · exact ⟨0, rfl, hmark, hstart⟩
      · exact ⟨c.utf8Size + j, Nat.add_assoc _ _ _, hmark,
          standsAt_cons.2 (.inr ⟨j, rfl, hstands⟩)⟩
    · rintro ⟨j, rfl, hmark, hstands⟩
      rcases standsAt_cons.1 hstands with ⟨rfl, hstart⟩ | ⟨i, rfl, hbehind⟩
      · exact .inl ⟨rfl, hmark, hstart⟩
      · exact .inr ⟨i, (Nat.add_assoc _ _ _).symm, hmark, hbehind⟩

theorem le_of_mem_tokensFrom {p : Nat × Text} (h : p ∈ tokensFrom n t) : n ≤ p.1 := by
  obtain ⟨j, hj, -⟩ := mem_tokensFrom.1 h
  omega

theorem pairwise_tokensFrom (n : Nat) (t : Text) :
    (tokensFrom n t).Pairwise fun a b ↦ a.1 < b.1 := by
  induction t generalizing n with
  | nil => exact .nil
  | cons c t ih =>
    rw [tokensFrom_cons]
    split
    · refine .cons ?_ (ih _)
      intro p hp
      have hle := le_of_mem_tokensFrom hp
      have hpos := c.utf8Size_pos
      omega
    · exact ih _

theorem lists_tokensFrom (t : Text) : Lists IsMark t (tokensFrom 0 t) := by
  refine ⟨pairwise_tokensFrom 0 t, ?_⟩
  intro n token
  rw [mem_tokensFrom]
  simp

theorem leftovers_eq (t : Text) : leftovers t = (tokensFrom 0 t).map (leftoverAt t) :=
  leftoversFrom_eq [] t

end TildeMerge.Markup
