import TildeMerge.Proofs.Markup.Cuts
import TildeMerge.Proofs.Markup.Shapes
import TildeMerge.Proofs.Text.Lines

namespace TildeMerge.Markup

variable {c : Char} {s t v g a : Text} {ss : List Section}

def lastRun (t : Text) : Text :=
  (t.reverse.takeWhile isPathChar).reverse

theorem exists_lastRun (t : Text) : ∃ s, t = s ++ lastRun t ∧
    ∀ u, itemPaths (s ++ u) = itemPaths s ++ itemPaths u := by
  refine ⟨(t.reverse.dropWhile isPathChar).reverse, ?_, fun u ↦ ?_⟩
  · rw [lastRun, ← List.reverse_append, List.takeWhile_append_dropWhile, List.reverse_reverse]
  · cases hd : t.reverse.dropWhile isPathChar with
    | nil => rfl
    | cons d q =>
      have hbreak : isPathChar d = false := by
        have hne : t.reverse.dropWhile isPathChar ≠ [] := by simp [hd]
        simpa [hd] using List.head_dropWhile_not isPathChar hne
      have hdot : d ≠ '.' := by
        rintro rfl
        cases hbreak
      have hsplit (w : Text) : itemPaths (q.reverse ++ d :: w) =
          itemPaths q.reverse ++ itemPaths w := by
        rw [itemPaths_append _ (endsRun_cons.2 hbreak)]
        exact congrArg _ (itemPaths_append_of_plain (s := [d]) (by simpa using hdot.symm) w)
      rw [List.reverse_cons, List.append_assoc, List.singleton_append, hsplit, hsplit,
        itemPaths_nil, List.append_nil]

theorem itemPaths_insert (hv : itemPaths v = []) (hrun : ¬ EndsRun v → '.' ∉ lastRun s)
    (ht : EndsRun t) : itemPaths (s ++ (v ++ t)) = itemPaths (s ++ t) := by
  have hs : itemPaths (s ++ v) = itemPaths s := by
    by_cases hb : EndsRun v
    · rw [itemPaths_append s hb, hv, List.append_nil]
    · have hdot := hrun hb
      obtain ⟨q, hq, hcut⟩ := exists_lastRun s
      calc itemPaths (s ++ v) = itemPaths (q ++ (lastRun s ++ v)) := by
            rw [← List.append_assoc, ← hq]
        _ = itemPaths q := by
            rw [hcut, itemPaths_append_of_plain hdot, hv, List.append_nil]
        _ = itemPaths (q ++ lastRun s) := by
            rw [hcut, itemPaths_of_notMem hdot, List.append_nil]
        _ = itemPaths s := by rw [← hq]
  rw [← List.append_assoc, itemPaths_append _ ht, hs, itemPaths_append _ ht]

/-- A text that stands in a block names no field there, extends no path, and makes no line of the
body into the first or the last one. -/
structure Inert (before after v : Text) : Prop where
  names_nothing : itemPaths v = []
  extends_nothing : ¬ EndsRun v → '.' ∉ lastRun before
  breaks_within : '\n' ∈ v → '\n' ∈ before ∧ '\n' ∈ after

theorem inert_iff : Inert s t v ↔ itemPaths v = [] ∧ (¬ EndsRun v → '.' ∉ lastRun s) ∧
    ('\n' ∈ v → '\n' ∈ s ∧ '\n' ∈ t) :=
  ⟨fun ⟨h₁, h₂, h₃⟩ ↦ ⟨h₁, h₂, h₃⟩, fun ⟨h₁, h₂, h₃⟩ ↦ ⟨h₁, h₂, h₃⟩⟩

instance (s t v : Text) : Decidable (Inert s t v) :=
  decidable_of_iff _ inert_iff.symm

theorem parse_congr (h : itemPaths s = itemPaths t) : Head.parse s = Head.parse t := by
  rw [itemPaths, itemPaths] at h
  rw [Head.parse, Head.parse, h]

theorem bodyOf_of_notMem (h : '\n' ∉ s) : bodyOf s = [] := by
  rw [bodyOf, Text.afterFirstBreak_of_notMem h]
  rfl

theorem bodyOf_append (h : '\n' ∉ s) (t : Text) :
    bodyOf (s ++ '\n' :: t) = t.beforeLastBreak.getD [] := by
  rw [bodyOf, Text.afterFirstBreak_append h]
  rfl

theorem lastRun_break (s t : Text) : lastRun (s ++ '\n' :: t) = lastRun t := by
  have hr : (s ++ '\n' :: t).reverse = t.reverse ++ '\n' :: s.reverse := by simp
  rw [lastRun, lastRun, hr, List.takeWhile_append]
  split
  · rename_i hall
    have htake : t.reverse.takeWhile isPathChar = t.reverse :=
      (List.takeWhile_prefix _).eq_of_length hall
    rw [htake, List.takeWhile_cons_of_neg (by decide), List.append_nil]
  · rfl

theorem ofRegion_insert (ht : EndsRun t) (h : Inert s t v) :
    Shape.ofRegion (s ++ (v ++ t)) = Shape.ofRegion (s ++ t) := by
  by_cases hs : '\n' ∈ s
  · obtain ⟨s₁, s₂, rfl, hs₁⟩ := List.eq_append_cons_of_mem hs
    have hrun : ¬ EndsRun v → '.' ∉ lastRun s₂ := by
      simpa only [lastRun_break] using h.extends_nothing
    simp only [Shape.ofRegion, List.append_assoc, List.cons_append, Text.firstLine_append hs₁,
      bodyOf_append hs₁]
    by_cases hbreak : '\n' ∈ t
    · -- The text stands between the first line and the last one.
      obtain ⟨t₁, t₂, rfl, ht₂⟩ := Text.exists_last_break hbreak
      have hpaths := itemPaths_insert h.names_nothing hrun ht.of_append
      have hlong : s₂ ++ (v ++ (t₁ ++ '\n' :: t₂)) = s₂ ++ (v ++ t₁) ++ '\n' :: t₂ := by
        simp only [List.append_assoc]
      have hshort : s₂ ++ (t₁ ++ '\n' :: t₂) = s₂ ++ t₁ ++ '\n' :: t₂ := by
        rw [List.append_assoc]
      rw [hlong, hshort, Text.beforeLastBreak_append _ ht₂, Text.beforeLastBreak_append _ ht₂]
      exact congrArg _ hpaths
    · -- The text stands on the last line, which is not read.
      have hv : '\n' ∉ v := fun hv ↦ hbreak (h.breaks_within hv).2
      have hvt : '\n' ∉ v ++ t := by simp [hv, hbreak]
      rw [Text.beforeLastBreak_append_of_notMem _ hvt,
        Text.beforeLastBreak_append_of_notMem _ hbreak]
  · have hv : '\n' ∉ v := fun hv ↦ hs (h.breaks_within hv).1
    by_cases hbreak : '\n' ∈ t
    · -- The text stands on the first line.
      obtain ⟨t₁, t₂, rfl, ht₁⟩ := List.eq_append_cons_of_mem hbreak
      have hpaths := itemPaths_insert h.names_nothing h.extends_nothing ht.of_append
      have hlong : s ++ (v ++ (t₁ ++ '\n' :: t₂)) = s ++ (v ++ t₁) ++ '\n' :: t₂ := by
        simp only [List.append_assoc]
      have hshort : s ++ (t₁ ++ '\n' :: t₂) = s ++ t₁ ++ '\n' :: t₂ := by
        rw [List.append_assoc]
      have hlong' : '\n' ∉ s ++ (v ++ t₁) := by simp [hs, hv, ht₁]
      have hshort' : '\n' ∉ s ++ t₁ := by simp [hs, ht₁]
      rw [hlong, hshort]
      simp only [Shape.ofRegion, Text.firstLine_append hlong', Text.firstLine_append hshort',
        bodyOf_append hlong', bodyOf_append hshort', parse_congr hpaths]
    · -- There is one line only.
      have hpaths := itemPaths_insert h.names_nothing h.extends_nothing ht
      have hlong : '\n' ∉ s ++ (v ++ t) := by simp [hs, hv, hbreak]
      have hshort : '\n' ∉ s ++ t := by simp [hs, hbreak]
      simp only [Shape.ofRegion, Text.firstLine_of_notMem hlong, Text.firstLine_of_notMem hshort,
        bodyOf_of_notMem hlong, bodyOf_of_notMem hshort, parse_congr hpaths]

/-- The block that a place falls into, cut there. The place is given by the text before it. -/
def cutBlock : Text → List Section → Option (Text × Text)
  | _, [] => none
  | before, s :: rest =>
    if s.text.length ≤ before.length then cutBlock (before.drop s.text.length) rest
    else
      match s, before with
      | .block region, _ :: _ => some (before, region.drop before.length)
      | _, _ => none

theorem cutBlock_plain (c : Char) (s : Text) (ss : List Section) :
    cutBlock (c :: s) (.plain c :: ss) = cutBlock s ss := by
  simp [cutBlock, Section.text]

theorem cutBlock_behind (g s : Text) (ss : List Section) :
    cutBlock (g ++ s) (.block g :: ss) = cutBlock s ss := by
  simp [cutBlock, Section.text]

theorem cutBlock_inside (c : Char) (s : Text) (hg : g ≠ []) (ss : List Section) :
    cutBlock (c :: s) (.block (c :: s ++ g) :: ss) = some (c :: s, g) := by
  have hlen : 0 < g.length := List.length_pos_iff.2 hg
  have hlong : ¬ (c :: s ++ g).length ≤ (c :: s).length := by
    rw [List.length_append]
    omega
  simp only [cutBlock, Section.text, if_neg hlong, List.drop_left]

/-- A text that stands between two others as text and nothing else: it holds no opener, it completes
no marker, and it is inert in the block that would be there without it. -/
structure Harmless (before after v : Text) : Prop where
  holds_no_opener : ¬ opener <:+: v
  completes_no_opener : ¬ Completes opener before v
  completes_no_closer : ¬ Completes closing before v
  inert : ∀ place ∈ cutBlock before (sections (before ++ after)), Inert place.1 place.2 v

theorem harmless_iff : Harmless s t v ↔ ¬ opener <:+: v ∧ ¬ Completes opener s v ∧
    ¬ Completes closing s v ∧ ∀ place ∈ cutBlock s (sections (s ++ t)), Inert place.1 place.2 v :=
  ⟨fun ⟨h₁, h₂, h₃, h₄⟩ ↦ ⟨h₁, h₂, h₃, h₄⟩, fun ⟨h₁, h₂, h₃, h₄⟩ ↦ ⟨h₁, h₂, h₃, h₄⟩⟩

instance (s t v : Text) : Decidable (Harmless s t v) :=
  decidable_of_iff _ harmless_iff.symm

theorem Harmless.holds_no_closer (h : Harmless s t v) : ¬ closing <:+: v := by
  have hp : opener <+: closing := by decide
  exact fun hi ↦ h.holds_no_opener (hp.isInfix.trans hi)

theorem Harmless.of_suffix {s' : Text} (h : Harmless s t v) (hs : s' <:+ s)
    (hcut : cutBlock s (sections (s ++ t)) = cutBlock s' (sections (s' ++ t))) :
    Harmless s' t v where
  holds_no_opener := h.holds_no_opener
  completes_no_opener hc := h.completes_no_opener (hc.mono hs)
  completes_no_closer hc := h.completes_no_closer (hc.mono hs)
  inert := hcut ▸ h.inert

theorem Harmless.of_plain (h : Harmless (c :: s) t v)
    (hsec : sections (c :: (s ++ t)) = .plain c :: sections (s ++ t)) : Harmless s t v := by
  refine h.of_suffix (List.suffix_cons c s) ?_
  rw [List.cons_append, hsec, cutBlock_plain]

theorem Harmless.of_block (h : Harmless (g ++ a) t v)
    (hsec : sections (g ++ (a ++ t)) = .block g :: sections (a ++ t)) : Harmless a t v := by
  refine h.of_suffix (List.suffix_append g a) ?_
  rw [List.append_assoc, hsec, cutBlock_behind]

theorem Harmless.opens_insert (h : Harmless (c :: s) t v) (ht : EndsRun t) :
    opens c (s ++ (v ++ t)) = opens c (s ++ t) := by
  have hlong : ¬ Completes opener (c :: s) (v ++ t) :=
    fun hc ↦ h.completes_no_opener (hc.of_append isRun_tail_opener ht)
  have hshort : ¬ Completes opener (c :: s) t := not_completes_of_endsRun isRun_tail_opener ht
  rw [opens_append hlong, opens_append hshort]

theorem Harmless.not_completes_closing (h : Harmless (c :: s) t v) (ht : EndsRun t) :
    ¬ Completes closing s (v ++ t) := by
  intro hc
  exact h.completes_no_closer ((hc.of_append isRun_tail_closing ht).mono (List.suffix_cons c s))

theorem Harmless.toCloser_insert_of_some (h : Harmless (c :: s) t v) (ht : EndsRun t)
    (hs : toCloser s = some (g, a)) : toCloser (s ++ (v ++ t)) = some (g, a ++ (v ++ t)) :=
  toCloser_append_of_some (h.not_completes_closing ht) hs

theorem Harmless.toCloser_insert_of_none (h : Harmless (c :: s) t v) (ht : EndsRun t)
    (hs : toCloser s = none) :
    toCloser (s ++ (v ++ t)) = (toCloser t).map fun (g, a) ↦ (s ++ (v ++ g), a) := by
  have hv : ¬ Completes closing v t := not_completes_of_endsRun isRun_tail_closing ht
  rw [toCloser_append_of_none (h.not_completes_closing ht) hs,
    toCloser_append_of_none hv (toCloser_eq_none h.holds_no_closer), Option.map_map]
  rfl

theorem shapes_append_of_no_opener (hs : ¬ opener <:+: s) (ht : EndsRun t) :
    shapes (s ++ t) = shapes t := by
  induction s with
  | nil => rfl
  | cons c s ih =>
    have hc : opens c (s ++ t) = false := by
      rw [opens_append (not_completes_of_endsRun isRun_tail_opener ht), Bool.eq_false_iff]
      exact fun ho ↦ hs (opens_iff.1 ho).isInfix
    have hs' : ¬ opener <:+: s := fun hi ↦ hs (hi.trans (List.suffix_cons c s).isInfix)
    rw [List.cons_append, shapes_plain hc, ih hs']

theorem shapes_insert_inside (ht : EndsRun t) (h : Harmless (c :: s) t v)
    (ho : opens c (s ++ t) = true) (hs : toCloser s = none) (htc : toCloser t = some (g, a)) :
    shapes (c :: (s ++ (v ++ t))) = shapes (c :: (s ++ t)) := by
  have hlong := h.toCloser_insert_of_none ht hs
  have hshort := toCloser_append_of_none (not_completes_of_endsRun isRun_tail_closing ht) hs
  rw [htc] at hlong hshort
  have hcut : cutBlock (c :: s) (sections (c :: s ++ t)) = some (c :: s, g) := by
    rw [List.cons_append, sections_block ho hshort]
    exact cutBlock_inside c s (toCloser_ne_nil htc) _
  have hg : EndsRun g := (toCloser_text htc ▸ ht).of_append
  rw [shapes_block ((h.opens_insert ht).trans ho) hlong, shapes_block ho hshort]
  exact congrArg (· :: shapes a) (ofRegion_insert hg (h.inert _ hcut))

/-- A harmless text leaves the blocks as they are. The induction goes from section to section of the
text before it. -/
theorem shapes_insert (ht : EndsRun t) (h : Harmless s t v) :
    shapes (s ++ (v ++ t)) = shapes (s ++ t) := by
  induction hn : s.length using Nat.strong_induction_on generalizing s with
  | _ n ih =>
    subst hn
    cases s with
    | nil => exact shapes_append_of_no_opener h.holds_no_opener ht
    | cons c s =>
      have hlt : s.length < (c :: s).length := Nat.lt_succ_self _
      have hopen := h.opens_insert ht
      rw [List.cons_append, List.cons_append]
      cases ho : opens c (s ++ t) with
      | false =>
        rw [shapes_plain (hopen.trans ho), shapes_plain ho]
        exact ih _ hlt (h.of_plain (sections_plain ho)) rfl
      | true =>
        have ht' : ¬ Completes closing s t := not_completes_of_endsRun isRun_tail_closing ht
        cases hs : toCloser s with
        | some p =>
          -- The block ends before the place.
          obtain ⟨g, a⟩ := p
          have htext := toCloser_text hs
          have hshort := toCloser_append_of_some ht' hs
          have hsec := sections_block ho hshort
          rw [shapes_block (hopen.trans ho) (h.toCloser_insert_of_some ht hs),
            shapes_block ho hshort]
          subst htext
          have hlt' : a.length < (c :: (g ++ a)).length := by
            rw [List.length_cons, List.length_append]
            omega
          rw [List.append_assoc] at hsec
          exact congrArg _ (ih _ hlt' (Harmless.of_block (g := c :: g) h hsec) rfl)
        | none =>
          cases htc : toCloser t with
          | some p => exact shapes_insert_inside ht h ho hs htc
          | none =>
            -- There is no closer, neither before the place nor behind it.
            have hlong := h.toCloser_insert_of_none ht hs
            have hshort := toCloser_append_of_none ht' hs
            rw [htc] at hlong hshort
            rw [shapes_unclosed hlong, shapes_unclosed hshort]
            exact ih _ hlt (h.of_plain (sections_unclosed hshort)) rfl

example : ¬ Harmless (opener ++ ['f', '\n', '.', 'q']) ('\n' :: closing) ['s'] ∧
    shapes (opener ++ ['f', '\n', '.', 'q'] ++ (['s'] ++ '\n' :: closing)) ≠
      shapes (opener ++ ['f', '\n', '.', 'q'] ++ '\n' :: closing) := by
  decide

example : ¬ Harmless (opener ++ ['f']) (' ' :: '.' :: 'c' :: '\n' :: closing) ['\n'] ∧
    shapes (opener ++ ['f'] ++ (['\n'] ++ ' ' :: '.' :: 'c' :: '\n' :: closing)) ≠
      shapes (opener ++ ['f'] ++ ' ' :: '.' :: 'c' :: '\n' :: closing) := by
  decide

example : ¬ Harmless (opener ++ ['f', ' ', '~']) [] ['.', 'e', 'n', 'd'] ∧
    shapes (opener ++ ['f', ' ', '~'] ++ (['.', 'e', 'n', 'd'] ++ [])) ≠
      shapes (opener ++ ['f', ' ', '~'] ++ []) := by
  decide

end TildeMerge.Markup
