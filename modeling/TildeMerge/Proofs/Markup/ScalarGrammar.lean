import TildeMerge.Proofs.Markup.LeftoverLines
import TildeMerge.Proofs.Markup.Positions
import TildeMerge.Proofs.Markup.Regions

namespace TildeMerge.Markup

open Text (BeginsAt)

variable {t s r token path : Text} {n : Nat} {p : Placeholder} {refs : List Placeholder}

/-- A tilde stands at the byte offset, and a word character behind it. -/
def MarksScalar (t : Text) (n : Nat) : Prop :=
  ∃ w, InWordClass w ∧ BeginsAt ['~', w] t n

/-- The path is made of all path characters that follow the tilde where the span starts, and the span stops
behind the last one. -/
def IsMaximal (t : Text) (p : Placeholder) : Prop :=
  ∃ before after, t = before ++ '~' :: (p.path ++ after) ∧ p.start = Text.size before ∧
    p.stop = Text.size (before ++ '~' :: p.path) ∧ (∀ c ∈ p.path, InPathClass c) ∧
    ∀ c ∈ after.head?, ¬ InPathClass c

/-- The placeholders that the grammar finds in a text. -/
structure ScalarsOf (t : Text) (refs : List Placeholder) : Prop where
  inOrder : InOrder refs
  /-- One for each tilde that a word character follows, and no other. -/
  start_iff : ∀ n, (∃ p ∈ refs, p.start = n) ↔ MarksScalar t n
  maximal : ∀ p ∈ refs, IsMaximal t p
  /-- No span overlaps the two bytes of an opener. -/
  apart : ∀ p ∈ refs, ∀ n, BeginsAt opener t n → n + 2 ≤ p.start ∨ p.stop ≤ n

theorem isMark_and_not_dotted_iff :
    IsMark token ∧ (!opener.isPrefixOf token) = true ↔ IsToken ['~'] token := by
  constructor
  · rintro ⟨hscalar | hopener, hplain⟩
    · exact hscalar
    · obtain ⟨w, run, -, -, rfl⟩ := hopener
      cases hplain
  · intro hscalar
    refine ⟨.inl hscalar, ?_⟩
    obtain ⟨w, run, hw, -, rfl⟩ := hscalar
    have hno : opener.isPrefixOf ('~' :: w :: run) = false := not_opener_prefix_of_startsWord hw
    rw [List.singleton_append, hno]
    rfl

theorem map_scalars (t : Text) : (scalars t).map (fun p ↦ (p.start, '~' :: p.path)) =
    (tokensFrom 0 t).filter fun place ↦ !opener.isPrefixOf place.2 := by
  rw [tokensFrom, filter_runTokens, ← locate_plain_append]
  rfl

theorem lists_scalars (t : Text) :
    Lists (IsToken ['~']) t ((scalars t).map fun p ↦ (p.start, '~' :: p.path)) := by
  have h := (lists_tokensFrom t).filter fun token ↦ !opener.isPrefixOf token
  simp only [isMark_and_not_dotted_iff] at h
  rw [map_scalars]
  exact h

theorem mem_scalars_iff : p ∈ scalars t ↔ IsToken ['~'] ('~' :: p.path) ∧
    StandsAt ('~' :: p.path) t p.start ∧ p.stop = p.start + 1 + p.path.size := by
  rw [← and_assoc, ← (lists_scalars t).mem_iff, List.mem_map]
  constructor
  · intro hp
    exact ⟨⟨p, hp, rfl⟩, stop_eq_of_mem_locate hp⟩
  · rintro ⟨⟨q, hq, hplace⟩, hstop⟩
    have hstart : q.start = p.start := congrArg Prod.fst hplace
    have hpath : q.path = p.path := (List.cons.inj (congrArg Prod.snd hplace)).2
    have hend : q.stop = p.stop := by rw [stop_eq_of_mem_locate hq, hstart, hpath, hstop]
    have hsame : q = p :=
      calc q = ⟨q.start, q.stop, q.path⟩ := rfl
        _ = ⟨p.start, p.stop, p.path⟩ := by rw [hstart, hend, hpath]
        _ = p := rfl
    rwa [← hsame]

theorem marksScalar_of_isToken (htoken : IsToken ['~'] ('~' :: path))
    (hstands : StandsAt ('~' :: path) t n) : MarksScalar t n := by
  obtain ⟨w, run, hw, -, hpath⟩ := htoken
  obtain ⟨before, after, rfl, rfl, -⟩ := hstands
  refine ⟨w, isWordChar_iff.1 hw, Text.beginsAt_size.2 ?_⟩
  rw [hpath]
  exact List.prefix_append ['~', w] (run ++ after)

theorem exists_mem_scalars_of_marks (h : MarksScalar t n) : ∃ p ∈ scalars t, p.start = n := by
  obtain ⟨w, hw, before, ⟨rest, rfl⟩, rfl⟩ := h
  have hword : isWordChar w = true := isWordChar_iff.2 hw
  obtain ⟨after, hrest, hafter⟩ := exists_endsRun (w :: rest)
  refine ⟨⟨Text.size before, Text.size before + 1 + Text.size (runs (w :: rest)).first,
    (runs (w :: rest)).first⟩, mem_scalars_iff.2 ⟨?_, ?_, rfl⟩, rfl⟩
  · exact isToken_append.2 ⟨isRun_first _, (startsWord_first (w :: rest)).trans hword⟩
  · refine ⟨before, after, ?_, rfl, hafter⟩
    rw [List.cons_append, ← hrest, List.append_assoc]
    rfl

theorem isMaximal_of_mem_scalars (h : p ∈ scalars t) : IsMaximal t p := by
  obtain ⟨htoken, ⟨before, after, htext, hstart, hafter⟩, hstop⟩ := mem_scalars_iff.1 h
  refine ⟨before, after, htext, hstart.symm, ?_, isRun_iff.1 (isToken_append.1 htoken).1,
    endsRun_iff.1 hafter⟩
  rw [hstop, ← hstart, Text.size_append, Text.size_cons, ← Nat.add_assoc]
  rfl

theorem mem_scalars_of_isMaximal (h : IsMaximal t p) (hmarks : MarksScalar t p.start) :
    p ∈ scalars t := by
  obtain ⟨before, after, htext, hstart, hstop, hpath, hafter⟩ := h
  obtain ⟨w, hw, hbegins⟩ := hmarks
  have hstands : StandsAt ('~' :: p.path) t p.start :=
    ⟨before, after, htext, hstart.symm, endsRun_iff.2 hafter⟩
  have hword : p.path.startsWord = true := by
    rw [htext, hstart, Text.beginsAt_size, List.cons_prefix_cons] at hbegins
    cases hp : p.path with
    | nil =>
      -- Then the word character would be the first one behind the path.
      rw [hp] at hbegins
      obtain ⟨rest, rfl⟩ := hbegins.2
      exact absurd (Or.inl hw) (hafter w rfl)
    | cons c path =>
      rw [hp, List.cons_append, List.cons_prefix_cons] at hbegins
      rw [← hbegins.2.1]
      exact isWordChar_iff.2 hw
  refine mem_scalars_iff.2 ⟨isToken_append.2 ⟨isRun_iff.2 hpath, hword⟩, hstands, ?_⟩
  rw [hstop, hstart, Text.size_append, Text.size_cons, ← Nat.add_assoc]
  rfl

theorem apart_of_mem_scalars (h : p ∈ scalars t) (hn : BeginsAt opener t n) :
    n + 2 ≤ p.start ∨ p.stop ≤ n := by
  obtain ⟨htoken, hstands, hstop⟩ := mem_scalars_iff.1 h
  obtain ⟨w, hw, hword⟩ := marksScalar_of_isToken htoken hstands
  obtain ⟨before, after, rfl, hstart, -⟩ := hstands
  have htilde : BeginsAt ('~' :: p.path) (before ++ ('~' :: p.path ++ after)) p.start := by
    rw [← hstart, Text.beginsAt_size]
    exact List.prefix_append _ after
  -- Neither of the two begins inside the other one, and a dot is no word character.
  rcases Nat.lt_trichotomy n p.start with hlt | heq | hlt
  · obtain ⟨k, hk⟩ := Nat.exists_eq_add_of_le hlt.le
    rw [hk] at htilde
    have hfar := not_beginsAt_within isRun_tail_opener hn htilde (by omega)
    rw [size_opener] at hfar
    omega
  · rw [heq, ← hstart, Text.beginsAt_size] at hn
    rw [← hstart, Text.beginsAt_size] at hword
    have hsame : opener <+: ['~', w] := List.prefix_of_prefix_length_le hn hword le_rfl
    rw [opener, List.cons_prefix_cons, List.cons_prefix_cons] at hsame
    rw [← hsame.2.1, ← isWordChar_iff] at hw
    cases hw
  · obtain ⟨k, hk⟩ := Nat.exists_eq_add_of_le hlt.le
    have hrun : IsRun ('~' :: p.path).tail := (isToken_append.1 htoken).1
    rw [hk] at hn
    have hfar := not_beginsAt_within hrun htilde hn (by omega)
    have hone : Char.utf8Size '~' = 1 := rfl
    rw [Text.size_cons, hone] at hfar
    omega

theorem scalarsOf_scalars (t : Text) : ScalarsOf t (scalars t) := by
  refine ⟨inOrder_locate 0 _, ?_, ?_, ?_⟩
  · intro n
    refine ⟨?_, exists_mem_scalars_of_marks⟩
    rintro ⟨p, hp, rfl⟩
    obtain ⟨htoken, hstands, -⟩ := mem_scalars_iff.1 hp
    exact marksScalar_of_isToken htoken hstands
  · intro p hp
    exact isMaximal_of_mem_scalars hp
  · intro p hp n hn
    exact apart_of_mem_scalars hp hn

/-- The scan finds what the grammar says, and the grammar leaves nothing open: there is one placeholder for
each tilde that a word character follows, in the order of the text, each with all path characters that
come behind its tilde. -/
theorem scalarsOf_iff (t : Text) (refs : List Placeholder) : ScalarsOf t refs ↔ refs = scalars t := by
  constructor
  · intro h
    have hscalars := scalarsOf_scalars t
    have hsub : ∀ p ∈ refs, p ∈ scalars t := fun p hp ↦
      mem_scalars_of_isMaximal (h.maximal p hp) ((h.start_iff p.start).1 ⟨p, hp, rfl⟩)
    refine h.inOrder.eq_of_mem_iff hscalars.inOrder fun p ↦ ⟨hsub p, fun hp ↦ ?_⟩
    obtain ⟨q, hq, hstart⟩ := (h.start_iff p.start).2 ((hscalars.start_iff p.start).1 ⟨p, hp, rfl⟩)
    have hsame : q = p := hscalars.inOrder.eq_of_start_eq (hsub q hq) hp hstart
    rwa [← hsame]
  · rintro rfl
    exact scalarsOf_scalars t

/-- Tildes that touch, a dot at the end of a path, a letter that is not ASCII, and an opener. -/
example : scalars ['~', '~', 'a', '.', 'é', '~', 'é', '~', '.', 'x', '~', '_', '~'] =
    [⟨1, 4, ['a', '.']⟩, ⟨12, 14, ['_']⟩] := by decide

end TildeMerge.Markup
