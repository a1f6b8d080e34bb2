import TildeMerge.Proofs.Markup.Gaps
import TildeMerge.Proofs.Markup.Heads
import TildeMerge.Proofs.Markup.Insertion

namespace TildeMerge.Markup

variable {c : Char} {t g a region headLine body : Text} {b : Block}

/-- The head line and the body are what the lines of the region say. -/
structure ReadsLines (region headLine body : Text) : Prop where
  headLine_eq : (region.splitOn '\n').head? = some headLine
  body_eq : body = ['\n'].intercalate (region.splitOn '\n').tail.dropLast
  body_eq_nil : (region.splitOn '\n').length < 3 → body = []
  body_lines : 3 ≤ (region.splitOn '\n').length →
    body.splitOn '\n' = (region.splitOn '\n').tail.dropLast

theorem lines_cases (t : Text) : '\n' ∉ t ∨
    (∃ s l, t = s ++ '\n' :: l ∧ '\n' ∉ s ∧ '\n' ∉ l) ∨
    ∃ s m l, t = s ++ '\n' :: (m ++ '\n' :: l) ∧ '\n' ∉ s ∧ '\n' ∉ l := by
  by_cases ht : '\n' ∈ t
  · obtain ⟨s, u, rfl, hs⟩ := List.eq_append_cons_of_mem ht
    by_cases hu : '\n' ∈ u
    · obtain ⟨m, l, rfl, hl⟩ := Text.exists_last_break hu
      exact .inr (.inr ⟨s, m, l, rfl, hs, hl⟩)
    · exact .inr (.inl ⟨s, u, rfl, hs, hu⟩)
  · exact .inl ht

theorem bodyOf_twoLines {s l : Text} (hs : '\n' ∉ s) (hl : '\n' ∉ l) :
    bodyOf (s ++ '\n' :: l) = [] := by
  have hlast : Text.beforeLastBreak l = none := Text.beforeLastBreak_append_of_notMem [] hl
  rw [bodyOf_append hs, hlast, Option.getD_none]

theorem bodyOf_lines {s l : Text} (hs : '\n' ∉ s) (m : Text) (hl : '\n' ∉ l) :
    bodyOf (s ++ '\n' :: (m ++ '\n' :: l)) = m := by
  rw [bodyOf_append hs, Text.beforeLastBreak_append m hl, Option.getD_some]

theorem ReadsLines.of_length_lt (hhead : (region.splitOn '\n').head? = some headLine)
    (hlt : (region.splitOn '\n').length < 3) : ReadsLines region headLine [] where
  headLine_eq := hhead
  body_eq := by
    have hnil : (region.splitOn '\n').tail.dropLast = [] := by
      apply List.eq_nil_of_length_eq_zero
      rw [List.length_dropLast, List.length_tail]
      omega
    rw [hnil]
    rfl
  body_eq_nil _ := rfl
  body_lines hlong := absurd hlt (Nat.not_lt.2 hlong)

theorem readsLines (region : Text) : ReadsLines region region.firstLine (bodyOf region) := by
  rcases lines_cases region with hone | ⟨s, l, rfl, hs, hl⟩ | ⟨s, m, l, rfl, hs, hl⟩
  · have hlines : region.splitOn '\n' = [region] := List.splitOn_eq_singleton hone
    rw [Text.firstLine_of_notMem hone, bodyOf_of_notMem hone]
    exact .of_length_lt (by rw [hlines, List.head?_cons]) (by simp [hlines])
  · have hlines : (s ++ '\n' :: l).splitOn '\n' = [s, l] := by
      rw [List.splitOn_append_cons_self, List.splitOn_eq_singleton hs, List.splitOn_eq_singleton hl]
      rfl
    rw [Text.firstLine_append hs, bodyOf_twoLines hs hl]
    exact .of_length_lt (by rw [hlines, List.head?_cons]) (by simp [hlines])
  · have hlines : (s ++ '\n' :: (m ++ '\n' :: l)).splitOn '\n' = s :: (m.splitOn '\n' ++ [l]) := by
      rw [List.splitOn_append_cons_self, List.splitOn_append_cons_self, List.splitOn_eq_singleton hs,
        List.splitOn_eq_singleton hl]
      rfl
    have hbetween : (s :: (m.splitOn '\n' ++ [l])).tail.dropLast = m.splitOn '\n' := by
      rw [List.tail_cons, List.dropLast_concat]
    rw [Text.firstLine_append hs, bodyOf_lines hs m hl]
    refine ⟨?_, ?_, ?_, ?_⟩
    · rw [hlines, List.head?_cons]
    · rw [hlines, hbetween, List.intercalate_splitOn]
    · intro hshort
      have hsome : 0 < (m.splitOn '\n').length := List.length_pos_iff.2 (List.splitOn_ne_nil '\n' m)
      rw [hlines, List.length_cons, List.length_append, List.length_singleton] at hshort
      omega
    · intro _
      rw [hlines, hbetween]

theorem opener_prefix_of_mem_sections (h : .block region ∈ sections t) : opener <+: region := by
  induction t using sections_induction with
  | nil => cases h
  | plain c t ho ih =>
    rw [sections_plain ho, List.mem_cons] at h
    exact ih (h.resolve_left nofun)
  | unclosed c t ho hclose ih =>
    rw [sections_unclosed hclose, List.mem_cons] at h
    exact ih (h.resolve_left nofun)
  | block c t g a ho hclose ih =>
    rw [sections_block ho hclose] at h
    rcases List.mem_cons.1 h with heq | h
    · obtain ⟨m, rfl, -⟩ := exists_closing hclose
      have htext : c :: (m ++ closing) <+: c :: t := ⟨a, by rw [toCloser_text hclose]; rfl⟩
      rw [Section.block.inj heq]
      refine List.prefix_of_prefix_length_le (opens_iff.1 ho) htext ?_
      rw [List.length_cons, List.length_append]
      exact Nat.le_add_left 2 _
    · exact ih h

theorem mem_sections_of_mem_blocks (hb : b ∈ blocks t) : .block (b.region t) ∈ sections t := by
  have hmem : b.region t ∈ (sections t).filterMap Section.region? := by
    rw [← map_region_blocks]
    exact List.mem_map_of_mem hb
  obtain ⟨sec, hsec, hregion⟩ := List.mem_filterMap.1 hmem
  cases sec with
  | plain c => cases hregion
  | block region =>
    rw [← Option.some.inj hregion]
    exact hsec

/-- The region of a block goes from an opener to a closer, its head line is the first of its lines, and
its body has the lines that stand between the first one and the last one: none, if it has fewer than
three, and otherwise each of them. -/
theorem readsLines_of_mem_blocks (t : Text) : ∀ b ∈ blocks t,
    opener <+: b.region t ∧ closing <:+ b.region t ∧ ReadsLines (b.region t) b.headLine b.body := by
  intro b hb
  have hsection := mem_sections_of_mem_blocks hb
  obtain ⟨m, hclosing⟩ := exists_closing_of_mem_sections hsection
  refine ⟨opener_prefix_of_mem_sections hsection, ⟨m, hclosing.symm⟩, ?_⟩
  have hlines := readsLines (b.region t)
  have hblock := eq_ofRegion_of_mem_blocks hb
  have hhead : b.headLine = (b.region t).firstLine := congrArg Block.headLine hblock
  have hbody : b.body = bodyOf (b.region t) := congrArg Block.body hblock
  rwa [hhead, hbody]

def emptyLines : Text :=
  ['é'] ++ opener ++ ['q', '\n', '\n', '.', 'x', '\n', '\n'] ++ closing

theorem readsLines_of_mem_blocks_emptyLines :
    ∃ b ∈ blocks emptyLines, b.start = 2 ∧
      (b.region emptyLines).splitOn '\n' = [['~', '.', 'q'], [], ['.', 'x'], [], closing] ∧
      b.headLine = ['~', '.', 'q'] ∧ b.body.splitOn '\n' = [[], ['.', 'x'], []] := by
  have hmem : (⟨2, 16, ['~', '.', 'q'], ['\n', '.', 'x', '\n']⟩ : Block) ∈ blocks emptyLines := by
    decide
  have hlines : (Block.region ⟨2, 16, ['~', '.', 'q'], ['\n', '.', 'x', '\n']⟩ emptyLines).splitOn '\n' =
      [['~', '.', 'q'], [], ['.', 'x'], [], closing] := by decide
  obtain ⟨-, -, hreads⟩ := readsLines_of_mem_blocks emptyLines _ hmem
  refine ⟨_, hmem, rfl, hlines, rfl, ?_⟩
  rw [hreads.body_lines (by simp [hlines]), hlines]
  rfl

end TildeMerge.Markup
