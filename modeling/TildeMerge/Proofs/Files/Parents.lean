import TildeMerge.Files.Path
import Mathlib.Data.List.DropRight

namespace TildeMerge.Path

variable {p : Text} {parts : List Text}

def named (parts : List Text) : List Text :=
  parts.filter fun s ↦ !s.isEmpty

theorem segments_eq (p : Text) : segments p = named (p.splitOn '/') := rfl

theorem named_append (parts more : List Text) :
    named (parts ++ more) = named parts ++ named more :=
  List.filter_append ..

theorem slash_notMem_of_mem_splitOn {s : Text} (h : s ∈ p.splitOn '/') : '/' ∉ s := by
  induction p generalizing s with
  | nil =>
    obtain rfl : s = [] := by simpa using h
    simp
  | cons c p ih =>
    rw [List.splitOn_cons_eq_if_modifyHead] at h
    split at h
    · rcases List.mem_cons.1 h with rfl | h
      · simp
      · exact ih h
    · rename_i hc
      cases hp : p.splitOn '/' with
      | nil => exact absurd hp (List.splitOn_ne_nil '/' p)
      | cons first rest =>
        rw [hp, List.modifyHead_cons] at h
        rcases List.mem_cons.1 h with rfl | h
        · have hfirst : '/' ∉ first := ih (hp ▸ List.mem_cons_self)
          simp only [beq_iff_eq] at hc
          simp [hfirst, Ne.symm hc]
        · exact ih (hp ▸ List.mem_cons_of_mem first h)

theorem segments_slash (p : Text) : segments ('/' :: p) = segments p := by
  simp [segments, List.splitOn_cons_eq_if_modifyHead]

theorem segments_intercalate (h : ∀ s ∈ parts, '/' ∉ s) :
    segments (['/'].intercalate parts) = named parts := by
  cases parts with
  | nil => rfl
  | cons s rest => rw [segments_eq, List.splitOn_intercalate '/' h (List.cons_ne_nil s rest)]

theorem trimParts_isPrefix (parts : List Text) : trimParts parts <+: parts :=
  List.rdropWhile_prefix _ _

theorem exists_last_of_trimParts (h : trimParts parts ≠ []) :
    ∃ init last, trimParts parts = init ++ [last] ∧ last ≠ [] := by
  have hhead := List.head?_dropWhile_not (fun s : Text ↦ s.isEmpty || s = ['.']) parts.reverse
  unfold trimParts at h ⊢
  cases hd : parts.reverse.dropWhile fun s ↦ s.isEmpty || s = ['.'] with
  | nil => exact absurd (by rw [hd]; rfl) h
  | cons last before =>
    refine ⟨before.reverse, last, List.reverse_cons, ?_⟩
    rintro rfl
    simp [hd] at hhead

/-- Segments that lead nowhere else. -/
def Stays (ss : List Text) : Prop :=
  ∀ s ∈ ss, s = ['.']

theorem exists_stays_of_trimParts (parts : List Text) :
    ∃ after, trimParts parts ++ after = parts ∧ Stays (named after) := by
  refine ⟨parts.rtakeWhile fun s ↦ s.isEmpty || s = ['.'], ?_, fun s hs ↦ ?_⟩
  · exact List.rdropWhile_append_rtakeWhile
  · obtain ⟨hmem, hne⟩ := List.mem_filter.1 hs
    have htrimmed := List.mem_rtakeWhile_imp hmem
    simp_all

theorem exists_rest_of_trimParts (h : trimParts parts ≠ []) :
    ∃ before last after, named parts =
        named (trimParts (trimParts parts).dropLast) ++ (before ++ last :: after) ∧
      Stays before ∧ Stays after := by
  obtain ⟨init, last, htrim, hlast⟩ := exists_last_of_trimParts h
  obtain ⟨after, hafter, hstays⟩ := exists_stays_of_trimParts parts
  obtain ⟨between, hbetween, hstays'⟩ := exists_stays_of_trimParts init
  have hname (ss : List Text) : named (last :: ss) = last :: named ss := by simp [named, hlast]
  refine ⟨named between, last, named after, ?_, hstays', hstays⟩
  calc named parts = named (trimParts init ++ between ++ [last] ++ after) := by
        rw [hbetween, ← htrim, hafter]
    _ = named (trimParts init) ++ (named between ++ last :: named after) := by
        simp only [List.append_assoc, List.singleton_append, named_append, hname]
    _ = _ := by rw [htrim, List.dropLast_concat]

theorem parent_eq (p : Text) : parent p =
    if trimParts ((p.drop (startLength p)).splitOn '/') = [] then []
    else p.take (startLength p) ++ ['/'].intercalate
      (trimParts (trimParts ((p.drop (startLength p)).splitOn '/')).dropLast) := by
  unfold parent
  dsimp only
  split
  · rename_i heq
    rw [if_pos heq]
  · rename_i hne
    rw [if_neg hne]

theorem parts_isPrefix (parts : List Text) : trimParts (trimParts parts).dropLast <+: parts :=
  (trimParts_isPrefix _).trans ((List.dropLast_prefix _).trans (trimParts_isPrefix _))

theorem slash_notMem_of_mem_parts {s : Text}
    (hs : s ∈ trimParts (trimParts (p.splitOn '/')).dropLast) : '/' ∉ s :=
  slash_notMem_of_mem_splitOn ((parts_isPrefix _).subset hs)

theorem intercalate_isPrefix {more : List Text} (h : parts <+: more) :
    ['/'].intercalate parts <+: ['/'].intercalate more := by
  induction parts generalizing more with
  | nil => exact List.nil_prefix
  | cons s rest ih =>
    obtain ⟨others, rfl⟩ := h
    cases rest with
    | nil => cases others <;> simp
    | cons s' rest =>
      rw [List.cons_append, List.cons_append, List.intercalate_cons_cons,
        List.intercalate_cons_cons]
      exact (List.prefix_append_right_inj _).2 (ih (List.prefix_append _ _))

theorem intercalate_parts_isPrefix (p : Text) :
    ['/'].intercalate (trimParts (trimParts (p.splitOn '/')).dropLast) <+: p := by
  have h := intercalate_isPrefix (parts_isPrefix (p.splitOn '/'))
  rwa [List.intercalate_splitOn] at h

theorem parent_isPrefix (p : Text) : parent p <+: p := by
  rw [parent_eq]
  split
  · exact List.nil_prefix
  · have h := intercalate_parts_isPrefix (p.drop (startLength p))
    have hp := (List.prefix_append_right_inj (p.take (startLength p))).2 h
    rwa [List.take_append_drop] at hp

theorem isAbsolute_parent (h : parent p ≠ []) : isAbsolute (parent p) = isAbsolute p := by
  obtain ⟨c, start, hstart⟩ := List.exists_cons_of_ne_nil h
  obtain ⟨rest, hrest⟩ := parent_isPrefix p
  have hp : p = c :: (start ++ rest) := by rw [← List.cons_append, ← hstart, hrest]
  rw [hstart, hp]
  rfl

theorem startLength_cases (p : Text) :
    startLength p = 0 ∨ ∃ c q, p = c :: q ∧ startLength p = 1 ∧
      (c = '/' ∨ c = '.' ∧ ∃ r, q <+: '/' :: r) := by
  by_cases hp : isAbsolute p || p.take 2 = ['.', '/'] || p = ['.']
  · right
    have hlen : startLength p = 1 := if_pos hp
    cases p with
    | nil => simp [isAbsolute] at hp
    | cons c q =>
      refine ⟨c, q, rfl, hlen, ?_⟩
      cases q with
      | nil =>
        have hc : c = '/' ∨ c = '.' := by simpa [isAbsolute] using hp
        exact hc.imp_right fun hdot ↦ ⟨hdot, [], List.nil_prefix⟩
      | cons d q =>
        have hc : c = '/' ∨ c = '.' ∧ d = '/' := by simpa [isAbsolute] using hp
        rcases hc with hc | ⟨hc, rfl⟩
        · exact .inl hc
        · exact .inr ⟨hc, q, List.prefix_rfl⟩
  · exact .inl (if_neg hp)

theorem segments_dot {q r : Text} (h : q <+: '/' :: r) :
    segments ('.' :: q) = ['.'] :: segments q := by
  cases q with
  | nil => simp [segments, List.splitOn_cons_eq_if_modifyHead]
  | cons c q =>
    obtain rfl : c = '/' := (List.cons_prefix_cons.1 h).1
    simp [segments, List.splitOn_cons_eq_if_modifyHead]

/-- The parent of a path that holds a name has the segments of the path but for one name at the end,
and single dots around it. -/
theorem segments_eq_append (h : trimParts ((p.drop (startLength p)).splitOn '/') ≠ []) :
    ∃ before last after, segments p = segments (parent p) ++ (before ++ last :: after) ∧
      Stays before ∧ Stays after := by
  obtain ⟨before, last, after, hrest, hstays⟩ := exists_rest_of_trimParts h
  refine ⟨before, last, after, ?_, hstays⟩
  rw [parent_eq, if_neg h]
  have hsegments : segments (['/'].intercalate
      (trimParts (trimParts ((p.drop (startLength p)).splitOn '/')).dropLast)) =
        named (trimParts (trimParts ((p.drop (startLength p)).splitOn '/')).dropLast) :=
    segments_intercalate fun s hs ↦ slash_notMem_of_mem_parts hs
  rw [← hsegments, ← segments_eq] at hrest
  have hlead := intercalate_parts_isPrefix (p.drop (startLength p))
  rcases startLength_cases p with hlen | ⟨c, q, rfl, hlen, rfl | ⟨rfl, r, hq⟩⟩
  · rw [hlen, List.drop_zero] at hrest
    rw [hlen, List.take_zero, List.drop_zero, List.nil_append, hrest]
  · rw [hlen] at hrest ⊢
    exact (segments_slash q).trans (hrest.trans
      (congrArg (· ++ (before ++ last :: after)) (segments_slash _).symm))
  · rw [hlen] at hrest hlead ⊢
    have hdot := segments_dot (hlead.trans hq)
    rw [segments_dot hq, show q = ('.' :: q).drop 1 from rfl, hrest]
    exact congrArg (· ++ (before ++ last :: after)) hdot.symm

theorem segments_parent (h : parent p ≠ []) :
    ∃ rest, segments p = segments (parent p) ++ rest ∧ rest ≠ [] := by
  have hparts : trimParts ((p.drop (startLength p)).splitOn '/') ≠ [] := by
    intro hnil
    rw [parent_eq, if_pos hnil] at h
    exact h rfl
  obtain ⟨before, last, after, hrest, -⟩ := segments_eq_append hparts
  exact ⟨before ++ last :: after, hrest, by simp⟩

/-- The path ends in a name, with no slash behind it. -/
def EndsInName (p name : Text) : Prop :=
  endsInSlash p = false ∧ (segments p).getLast? = some name ∧ name ≠ ['.'] ∧ name ≠ ['.', '.']

theorem stays_segments_of_trimParts (h : trimParts ((p.drop (startLength p)).splitOn '/') = []) :
    Stays (segments p) := by
  obtain ⟨after, hafter, hstays⟩ :=
    exists_stays_of_trimParts ((p.drop (startLength p)).splitOn '/')
  rw [h, List.nil_append] at hafter
  rw [hafter, ← segments_eq] at hstays
  rcases startLength_cases p with hlen | ⟨c, q, rfl, hlen, rfl | ⟨rfl, r, hq⟩⟩
  · rwa [hlen, List.drop_zero] at hstays
  · rw [hlen] at hstays
    rw [segments_slash]
    exact hstays
  · rw [hlen] at hstays
    rw [segments_dot hq]
    rintro s (_ | ⟨_, hs⟩)
    · rfl
    · exact hstays s hs

theorem EndsInName.segments_eq {name : Text} (h : EndsInName p name) :
    ∃ before, segments p = segments (parent p) ++ before ++ [name] ∧ Stays before := by
  obtain ⟨-, hlast, hdot, -⟩ := h
  have hparts : trimParts ((p.drop (startLength p)).splitOn '/') ≠ [] := fun hnil ↦
    hdot (stays_segments_of_trimParts hnil name (List.mem_of_getLast? hlast))
  obtain ⟨before, last, after, hrest, hbefore, hafter⟩ := segments_eq_append hparts
  refine ⟨before, ?_, hbefore⟩
  -- A single dot behind the last name would be the last segment.
  rcases List.eq_nil_or_concat after with rfl | ⟨more, s, rfl⟩
  · have hname : last = name := by simpa [hrest] using hlast
    rw [hrest, hname, List.append_assoc]
  · rw [hrest, List.concat_eq_append, ← List.cons_append, ← List.append_assoc, ← List.append_assoc,
      List.getLast?_concat] at hlast
    have hname : s = name := Option.some.inj hlast
    exact absurd (hname ▸ hafter s (by simp)) hdot

end TildeMerge.Path
