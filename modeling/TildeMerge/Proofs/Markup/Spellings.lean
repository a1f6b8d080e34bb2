import TildeMerge.Proofs.Markup.Heads

namespace TildeMerge.Markup

variable {c : Char} {s t w keyword collection remark : Text}

/-- A dot of the text that a path character follows. -/
def HoldsToken (t : Text) : Prop :=
  ∃ c, isPathChar c = true ∧ ['.', c] <:+: t

theorem itemPaths_cons (h : c ≠ '.') (t : Text) : itemPaths (c :: t) = itemPaths t :=
  itemPaths_append_of_plain (s := [c]) (by simpa using Ne.symm h) t

theorem itemPaths_placeholder (hw : w ≠ []) (hp : IsRun w) (h : EndsRun t) :
    itemPaths ('.' :: (w ++ t)) = w :: itemPaths t := by
  rw [itemPaths, itemPieces_placeholder hw hp h]
  rfl

theorem itemPaths_dot (h : EndsRun t) : itemPaths ('.' :: t) = itemPaths t := by
  have happend := itemPaths_append ['.'] h
  rwa [show itemPaths ['.'] = [] from by decide, List.nil_append] at happend

theorem not_holdsToken_nil : ¬ HoldsToken [] := by
  rintro ⟨c, -, h⟩
  cases List.infix_nil.1 h

theorem holdsToken_cons (h : c ≠ '.') : HoldsToken (c :: t) ↔ HoldsToken t := by
  have hstart (d : Char) : ¬ ['.', d] <+: c :: t := fun hd ↦ h (List.cons_prefix_cons.1 hd).1.symm
  simp only [HoldsToken, List.infix_cons_iff, hstart, false_or]

theorem holdsToken_dot_of_endsRun (h : EndsRun t) : HoldsToken ('.' :: t) ↔ HoldsToken t := by
  refine exists_congr fun d ↦ and_congr_right fun hd ↦ ?_
  rw [List.infix_cons_iff, or_iff_right]
  intro hstart
  obtain ⟨r, rfl⟩ := (List.cons_prefix_cons.1 hstart).2
  have hbreak := endsRun_cons.1 h
  rw [hd] at hbreak
  cases hbreak

theorem itemPaths_dot_ne_nil (hc : isPathChar c = true) (t : Text) :
    itemPaths ('.' :: c :: t) ≠ [] := by
  obtain ⟨u, ht, hu⟩ := exists_endsRun (c :: t)
  have hfirst : (runs (c :: t)).first ≠ [] := by
    rw [runs_cons_path hc]
    exact List.cons_ne_nil c _
  rw [ht, itemPaths_placeholder hfirst (isRun_first (c :: t)) hu]
  exact List.cons_ne_nil _ _

theorem itemPaths_eq_nil_iff : itemPaths t = [] ↔ ¬ HoldsToken t := by
  induction t with
  | nil => exact iff_of_true rfl not_holdsToken_nil
  | cons c t ih =>
    by_cases hdot : c = '.'
    · subst hdot
      by_cases ht : EndsRun t
      · rw [itemPaths_dot ht, holdsToken_dot_of_endsRun ht, ih]
      · cases t with
        | nil => exact absurd endsRun_nil ht
        | cons d r =>
          have hd : isPathChar d = true := by simpa [endsRun_cons] using ht
          refine iff_of_false (itemPaths_dot_ne_nil hd r) (not_not_intro ⟨d, hd, ?_⟩)
          exact (List.prefix_append ['.', d] r).isInfix
    · rw [itemPaths_cons hdot, holdsToken_cons hdot, ih]

def spacedHead (keyword collection remark : Text) : Text :=
  opener ++ keyword ++ ' ' :: '.' :: (collection ++ remark)

def joinedHead (keyword collection remark : Text) : Text :=
  opener ++ keyword ++ '.' :: (collection ++ remark)

def IsKeyword (t : Text) : Prop :=
  t ≠ [] ∧ ∀ c ∈ t, isWordChar c = true

instance : DecidablePred IsKeyword := fun t ↦
  have := List.decidableBAll (isWordChar · = true) t
  inferInstanceAs (Decidable (t ≠ [] ∧ ∀ c ∈ t, isWordChar c = true))

theorem IsKeyword.isRun (h : IsKeyword t) : IsRun t := by
  intro c hc
  simp [isPathChar, h.2 c hc]

theorem IsKeyword.dot_notMem (h : IsKeyword t) : '.' ∉ t := by
  intro hdot
  exact absurd (h.2 _ hdot) (by decide)

theorem ofToken_append (hk : '.' ∉ keyword) (hc : collection ≠ []) :
    Head.ofToken (keyword ++ '.' :: collection) = ⟨keyword, some collection⟩ := by
  obtain ⟨c, path, rfl⟩ := List.exists_cons_of_ne_nil hc
  have hplain : ∀ d ∈ keyword, (d != '.') = true := by
    intro d hd
    simpa using ne_of_mem_of_not_mem hd hk
  have hdrop : (keyword ++ '.' :: c :: path).dropWhile (· != '.') = '.' :: c :: path := by
    rw [List.dropWhile_append_of_pos hplain]
    rfl
  have htake : (keyword ++ '.' :: c :: path).takeWhile (· != '.') = keyword := by
    rw [List.takeWhile_append_of_pos hplain]
    simp
  rw [Head.ofToken, hdrop, htake]

theorem itemPaths_spacedHead (hk : IsKeyword keyword) (hc : collection ≠ [])
    (hrun : IsRun collection) (hr : EndsRun remark) :
    itemPaths (spacedHead keyword collection remark) =
      keyword :: collection :: itemPaths remark := by
  have hspace : EndsRun (' ' :: '.' :: (collection ++ remark)) := endsRun_cons.2 (by decide)
  have htilde : ('~' : Char) ≠ '.' := by decide
  have hblank : (' ' : Char) ≠ '.' := by decide
  calc itemPaths (spacedHead keyword collection remark)
      = itemPaths ('.' :: (keyword ++ ' ' :: '.' :: (collection ++ remark))) :=
        itemPaths_cons htilde _
    _ = keyword :: itemPaths (' ' :: '.' :: (collection ++ remark)) :=
        itemPaths_placeholder hk.1 hk.isRun hspace
    _ = keyword :: collection :: itemPaths remark := by
        rw [itemPaths_cons hblank, itemPaths_placeholder hc hrun hr]

theorem itemPaths_joinedHead (hk : IsKeyword keyword) (hrun : IsRun collection)
    (hr : EndsRun remark) : itemPaths (joinedHead keyword collection remark) =
      (keyword ++ '.' :: collection) :: itemPaths remark := by
  have htilde : ('~' : Char) ≠ '.' := by decide
  have hne : keyword ++ '.' :: collection ≠ [] := by simp
  have hjoined : IsRun (keyword ++ '.' :: collection) := by
    intro c hc
    rcases List.mem_append.1 hc with hc | hc
    · exact hk.isRun c hc
    · rcases List.mem_cons.1 hc with rfl | hc
      · exact isPathChar_dot
      · exact hrun c hc
  calc itemPaths (joinedHead keyword collection remark)
      = itemPaths ('.' :: (keyword ++ '.' :: (collection ++ remark))) := itemPaths_cons htilde _
    _ = itemPaths ('.' :: (keyword ++ '.' :: collection ++ remark)) := by
        rw [List.append_assoc, List.cons_append]
    _ = (keyword ++ '.' :: collection) :: itemPaths remark :=
        itemPaths_placeholder hne hjoined hr

/-- A head with a space names its directive and its collection, whatever remark stands behind it. A head
in one piece names the same two exactly if no dotted token stands in the remark. Otherwise the whole piece
is read as the directive, and the first token of the remark as the collection. -/
theorem parse_spellings (hk : IsKeyword keyword) (hc : collection ≠ []) (hrun : IsRun collection)
    (hr : EndsRun remark) :
    Head.parse (spacedHead keyword collection remark) = some ⟨keyword, some collection⟩ ∧
    (Head.parse (joinedHead keyword collection remark) = some ⟨keyword, some collection⟩ ↔
      ¬ HoldsToken remark) ∧
    (∀ path more, itemPaths remark = path :: more →
      Head.parse (joinedHead keyword collection remark) =
        some ⟨keyword ++ '.' :: collection, some path⟩) := by
  rw [parse_eq_ofTokens, parse_eq_ofTokens, itemPaths_spacedHead hk hc hrun hr,
    itemPaths_joinedHead hk hrun hr, ← itemPaths_eq_nil_iff]
  refine ⟨rfl, ?_, ?_⟩
  · cases hpaths : itemPaths remark with
    | nil =>
      have htoken := ofToken_append hk.dot_notMem hc
      exact iff_of_true (congrArg some htoken) rfl
    | cons path more =>
      refine iff_of_false (fun hhead ↦ ?_) (List.cons_ne_nil path more)
      have hkeyword : keyword ++ '.' :: collection = keyword :=
        congrArg Head.directive (Option.some.inj hhead)
      simp at hkeyword
  · intro path more hpaths
    rw [hpaths]
    rfl

theorem parse_spellings_remarks :
    IsKeyword ['f', 'o', 'r'] ∧ IsRun ['l', '.', 'i'] ∧ EndsRun [' ', '(', 'a', '.', ')'] ∧
      ¬ HoldsToken [' ', '(', 'a', '.', ')'] ∧
      Head.parse (spacedHead ['f', 'o', 'r'] ['l', '.', 'i'] [' ', '(', 'a', '.', ')']) =
        some ⟨['f', 'o', 'r'], some ['l', '.', 'i']⟩ ∧
      Head.parse (joinedHead ['f', 'o', 'r'] ['l', '.', 'i'] [' ', '(', 'a', '.', ')']) =
        some ⟨['f', 'o', 'r'], some ['l', '.', 'i']⟩ ∧
      EndsRun ['-', '.', 'x', ' '] ∧ itemPaths ['-', '.', 'x', ' '] = [['x']] ∧
      Head.parse (spacedHead ['f', 'o', 'r'] ['l', '.', 'i'] ['-', '.', 'x', ' ']) =
        some ⟨['f', 'o', 'r'], some ['l', '.', 'i']⟩ ∧
      Head.parse (joinedHead ['f', 'o', 'r'] ['l', '.', 'i'] ['-', '.', 'x', ' ']) =
        some ⟨['f', 'o', 'r', '.', 'l', '.', 'i'], some ['x']⟩ := by
  have hk : IsKeyword ['f', 'o', 'r'] := by decide
  have hc : ['l', '.', 'i'] ≠ [] := nofun
  have hrun : IsRun ['l', '.', 'i'] := by decide
  have hr : EndsRun [' ', '(', 'a', '.', ')'] := by decide
  have hr' : EndsRun ['-', '.', 'x', ' '] := by decide
  have hnone : ¬ HoldsToken [' ', '(', 'a', '.', ')'] := itemPaths_eq_nil_iff.1 (by decide)
  have hpaths : itemPaths ['-', '.', 'x', ' '] = [['x']] := by decide
  obtain ⟨hspaced, hjoined, -⟩ := parse_spellings hk hc hrun hr
  obtain ⟨hspaced', -, hwhole⟩ := parse_spellings hk hc hrun hr'
  exact ⟨hk, hrun, hr, hnone, hspaced, hjoined.2 hnone, hr', hpaths, hspaced', hwhole _ _ hpaths⟩

/-- With a path in the remark the two spellings do not mean the same: a head in one piece is then not cut
behind its keyword. -/
theorem parse_joinedHead_pathInRemark :
    ¬ ∀ keyword collection remark : Text, IsKeyword keyword → collection ≠ [] → IsRun collection →
      '\n' ∉ remark → EndsRun remark →
        Head.parse (joinedHead keyword collection remark) = some ⟨keyword, some collection⟩ := by
  intro hall
  have hhead := hall ['f', 'o', 'r'] ['i', 't', 'e', 'm', 's'] [' ', '.', 'x'] (by decide) nofun
    (by decide) (by decide) (by decide)
  have hparse : Head.parse (joinedHead ['f', 'o', 'r'] ['i', 't', 'e', 'm', 's'] [' ', '.', 'x']) =
      some ⟨['f', 'o', 'r', '.', 'i', 't', 'e', 'm', 's'], some ['x']⟩ := by decide
  rw [hparse] at hhead
  cases hhead

end TildeMerge.Markup
