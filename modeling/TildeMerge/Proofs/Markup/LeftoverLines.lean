import TildeMerge.Proofs.Markup.Tokens

namespace TildeMerge.Markup

variable {t : Text} {l : Leftover} {n : Nat} {token : Text}

def Leftover.isDotted (l : Leftover) : Bool :=
  opener.isPrefixOf l.token

def Leftover.below (lines : Nat) (l : Leftover) : Leftover :=
  ⟨l.line + lines, l.token⟩

/-- What the list of leftovers says of a text. -/
structure Exact (t : Text) : Prop where
  places : ∃ places, Lists IsMark t places ∧ leftovers t = places.map (leftoverAt t)
  scalars : (leftovers t).filter (!·.isDotted) =
    (scalars t).map fun p ↦ leftoverAt t (p.start, '~' :: p.path)
  dotted : ∃ places, Lists (IsToken opener) t places ∧
    (leftovers t).filter Leftover.isDotted = places.map (leftoverAt t)
  ascending : (leftovers t).Pairwise fun k l ↦ k.line ≤ l.line
  on_line : ∀ l ∈ leftovers t, 1 ≤ l.line ∧
    ∃ line, (t.splitOn '\n')[l.line - 1]? = some line ∧ l.token <:+: line

theorem locate_plain_append (n : Nat) (w : Text) (ps : List Piece) :
    locate n (w.map .plain ++ ps) = locate (n + w.size) ps := by
  induction w generalizing n with
  | nil => rfl
  | cons c w ih => rw [List.map_cons, List.cons_append, locate, ih, Text.size_cons, Nat.add_assoc]

theorem not_opener_prefix_of_startsWord {run : Text} (h : run.startsWord = true) :
    opener.isPrefixOf ('~' :: run) = false := by
  cases run with
  | nil => cases h
  | cons w run =>
    have hw : ('.' == w) = false := by
      rw [beq_eq_false_iff_ne]
      rintro rfl
      cases h
    simp [opener, List.isPrefixOf, hw]

theorem opener_prefix_of_isMarkup {run : Text} (h : isMarkup run = true)
    (hword : run.startsWord = false) : opener.isPrefixOf ('~' :: run) = true := by
  cases run with
  | nil => cases h
  | cons c run =>
    by_cases hc : c = '.'
    · subst hc
      rfl
    · simp_all [isMarkup]

theorem filter_runTokens (n : Nat) (ps : List (Char × Text)) :
    (runTokens n ps).filter (fun p ↦ !opener.isPrefixOf p.2) =
      (locate n (ps.flatMap fun p ↦
        if p.1 == '~' && p.2.startsWord then [.placeholder p.2] else (p.1 :: p.2).map .plain)).map
        fun p ↦ (p.start, '~' :: p.path) := by
  induction ps generalizing n with
  | nil => rfl
  | cons p ps ih =>
    obtain ⟨c, run⟩ := p
    rw [runTokens, List.flatMap_cons]
    dsimp only
    have hrest := ih (n + Text.size (c :: run))
    by_cases hscalar : (c == '~' && run.startsWord) = true
    · obtain ⟨hc, hword⟩ := Bool.and_eq_true_iff.1 hscalar
      obtain rfl := beq_iff_eq.1 hc
      have hsize : n + Text.size ('~' :: run) = n + 1 + run.size := by
        rw [Text.size_cons, ← Nat.add_assoc]
        rfl
      have hmark : ('~' == '~' && isMarkup run) = true := by simp [isMarkup_of_startsWord hword]
      rw [hsize] at hrest ⊢
      rw [if_pos hmark, if_pos hscalar, List.filter_cons, not_opener_prefix_of_startsWord hword, hrest]
      rfl
    · -- What is left of a block counts for nothing here, and all else is no token.
      rw [if_neg hscalar, locate_plain_append, ← hrest]
      split
      · rename_i hmark
        obtain ⟨hc, hmarkup⟩ := Bool.and_eq_true_iff.1 hmark
        obtain rfl := beq_iff_eq.1 hc
        have hword : run.startsWord = false := by simpa using hscalar
        rw [List.filter_cons, opener_prefix_of_isMarkup hmarkup hword]
        rfl
      · rfl

theorem filter_leftovers (p : Text → Bool) (t : Text) :
    (leftovers t).filter (fun l ↦ p l.token) =
      ((tokensFrom 0 t).filter fun q ↦ p q.2).map (leftoverAt t) := by
  rw [leftovers_eq, List.filter_map]
  rfl

theorem leftovers_scalars (t : Text) : (leftovers t).filter (!·.isDotted) =
    (scalars t).map fun p ↦ leftoverAt t (p.start, '~' :: p.path) := by
  have hscalars : scalars t = locate (0 + (runs t).first.size) ((runs t).rest.flatMap fun p ↦
      if p.1 == '~' && p.2.startsWord then [.placeholder p.2] else (p.1 :: p.2).map .plain) :=
    locate_plain_append 0 _ _
  have hfilter := filter_leftovers (fun token ↦ !opener.isPrefixOf token) t
  rw [tokensFrom, filter_runTokens, List.map_map, ← hscalars] at hfilter
  exact hfilter

theorem isMark_and_dotted_iff :
    IsMark token ∧ opener.isPrefixOf token = true ↔ IsToken opener token := by
  constructor
  · rintro ⟨hscalar | hopener, hdotted⟩
    · obtain ⟨w, run, hw, -, rfl⟩ := hscalar
      have hno : opener.isPrefixOf ('~' :: w :: run) = false :=
        not_opener_prefix_of_startsWord hw
      rw [List.singleton_append, hno] at hdotted
      cases hdotted
    · exact hopener
  · intro hopener
    refine ⟨.inr hopener, ?_⟩
    obtain ⟨w, run, -, -, rfl⟩ := hopener
    rfl

theorem Lists.filter {p : Text → Prop} {places : List (Nat × Text)} (h : Lists p t places)
    (q : Text → Bool) : Lists (fun token ↦ p token ∧ q token = true) t
      (places.filter fun place ↦ q place.2) := by
  refine ⟨h.ordered.filter _, ?_⟩
  intro n token
  rw [List.mem_filter, h.mem_iff]
  exact and_right_comm

theorem exists_lists_dotted (t : Text) : ∃ places, Lists (IsToken opener) t places ∧
    (leftovers t).filter Leftover.isDotted = places.map (leftoverAt t) := by
  have h := (lists_tokensFrom t).filter opener.isPrefixOf
  simp only [isMark_and_dotted_iff] at h
  exact ⟨_, h, filter_leftovers opener.isPrefixOf t⟩

theorem leftovers_ascending (t : Text) : (leftovers t).Pairwise fun k l ↦ k.line ≤ l.line := by
  rw [leftovers_eq, List.pairwise_map]
  refine (pairwise_tokensFrom 0 t).imp ?_
  intro p q hlt
  exact t.lineAt_le hlt.le

theorem IsMark.newline_notMem (h : IsMark token) : '\n' ∉ token := by
  obtain ⟨run, rfl⟩ := h.exists_tilde
  have hrun := (isMark_iff.1 h).1.newline_notMem
  simpa using hrun

theorem on_line_of_mem (h : l ∈ leftovers t) : 1 ≤ l.line ∧
    ∃ line, (t.splitOn '\n')[l.line - 1]? = some line ∧ l.token <:+: line := by
  rw [leftovers_eq] at h
  obtain ⟨⟨n, token⟩, hplace, rfl⟩ := List.mem_map.1 h
  obtain ⟨hmark, s, u, rfl, rfl, -⟩ := ((lists_tokensFrom t).mem_iff n token).1 hplace
  have hline : (leftoverAt (s ++ (token ++ u)) (Text.size s, token)).line = 1 + s.count '\n' :=
    Text.lineAt_size _ _
  rw [hline, Nat.add_sub_cancel_left]
  exact ⟨Nat.le_add_right _ _, Text.exists_line s u hmark.newline_notMem⟩

theorem leftoversFrom_add (line k : Nat) (ps : List (Char × Text)) :
    leftoversFrom (line + k) ps = (leftoversFrom line ps).map (Leftover.below k) := by
  induction ps generalizing line with
  | nil => rfl
  | cons p ps ih =>
    obtain ⟨c, run⟩ := p
    rw [leftoversFrom, leftoversFrom, Nat.add_right_comm, ih, ih]
    split
    · rfl
    · split
      · rfl
      · rfl

theorem leftoversFrom_lines (line : Nat) (t u : Text) :
    leftoversFrom line (runs (t ++ '\n' :: u)).rest = leftoversFrom line (runs t).rest ++
      leftoversFrom (line + (1 + t.count '\n')) (runs u).rest := by
  induction t generalizing line with
  | nil => exact leftoversFrom_cons line '\n' u
  | cons c t ih =>
    have hfirst : (runs (t ++ '\n' :: u)).first = (runs t).first := by
      rw [runs_append t (endsRun_cons.2 isPathChar_newline)]
    rw [List.cons_append, leftoversFrom_cons, leftoversFrom_cons, hfirst]
    by_cases hbreak : c = '\n'
    · have hcount : line + (1 + (c :: t).count '\n') = line + 1 + (1 + t.count '\n') := by
        rw [hbreak, List.count_cons_self]
        omega
      rw [if_pos (beq_iff_eq.2 hbreak), if_pos (beq_iff_eq.2 hbreak), ih, hcount]
    · rw [if_neg (mt beq_iff_eq.1 hbreak), if_neg (mt beq_iff_eq.1 hbreak), ih,
        List.count_cons_of_ne hbreak]
      split
      · rfl
      · rfl

/-- The leftovers of a text are its placeholders and the tokens of openers and closers, from left to right
and each on its line. Below another text they are the same, as many lines further down. -/
theorem leftovers_exact (t u : Text) : Exact t ∧
    leftovers (t ++ '\n' :: u) =
      leftovers t ++ (leftovers u).map (Leftover.below (1 + t.count '\n')) := by
  refine ⟨?_, ?_⟩
  · exact
      { places := ⟨_, lists_tokensFrom t, leftovers_eq t⟩
        scalars := leftovers_scalars t
        dotted := exists_lists_dotted t
        ascending := leftovers_ascending t
        on_line := fun l ↦ on_line_of_mem }
  · rw [leftovers, leftoversFrom_lines, leftoversFrom_add]
    rfl

end TildeMerge.Markup
