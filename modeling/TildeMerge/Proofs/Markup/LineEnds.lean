import TildeMerge.Proofs.Markup.Gaps
import TildeMerge.Proofs.Markup.Heads
import TildeMerge.Proofs.Markup.Insertion
import TildeMerge.Proofs.Splicing
import TildeMerge.Proofs.Text.LineEnds

namespace TildeMerge.Markup

variable {marker : Char} {ps : List Piece}

def Piece.crlf : Piece → List Piece
  | .plain c => (Text.crlf [c]).map .plain
  | .placeholder path => [.placeholder path]

theorem flatMap_crlf_of_notMem (h : '\n' ∉ ps.flatMap (Piece.text marker)) :
    ps.flatMap Piece.crlf = ps := by
  induction ps with
  | nil => rfl
  | cons piece ps ih =>
    rw [List.flatMap_cons, List.mem_append, not_or] at h
    rw [List.flatMap_cons, ih h.2]
    cases piece with
    | plain c =>
      have hc : '\n' ∉ [c] := h.1
      rw [Piece.crlf, Text.crlf_of_notMem hc]
      rfl
    | placeholder path => rfl

theorem endsRun_crlf_break (t : Text) : EndsRun ('\r' :: '\n' :: t) :=
  endsRun_cons.2 (by decide)

theorem scalarPieces_crlf (t : Text) :
    scalarPieces t.crlf = (scalarPieces t).flatMap Piece.crlf := by
  have hcr : '\r' ≠ '~' := by decide
  have hlf : '\n' ≠ '~' := by decide
  induction t using Text.lines_induction with
  | line s hs =>
    rw [Text.crlf_of_notMem hs, flatMap_crlf_of_notMem]
    rwa [scalarPieces_text]
  | below s t hs ih =>
    have hline : (scalarPieces s).flatMap Piece.crlf = scalarPieces s := by
      apply flatMap_crlf_of_notMem
      rwa [scalarPieces_text]
    rw [Text.crlf_append, Text.crlf_break, Text.crlf_of_notMem hs,
      scalarPieces_append s (endsRun_crlf_break _), scalarPieces_cons hcr, scalarPieces_cons hlf, ih,
      scalarPieces_append s (endsRun_cons.2 isPathChar_newline), scalarPieces_cons hlf,
      List.flatMap_append, hline, List.flatMap_cons]
    rfl

theorem itemPieces_crlf (t : Text) : itemPieces t.crlf = (itemPieces t).flatMap Piece.crlf := by
  have hcr : '\r' ≠ '.' := by decide
  have hlf : '\n' ≠ '.' := by decide
  induction t using Text.lines_induction with
  | line s hs =>
    rw [Text.crlf_of_notMem hs, flatMap_crlf_of_notMem]
    rwa [itemPieces_text]
  | below s t hs ih =>
    have hline : (itemPieces s).flatMap Piece.crlf = itemPieces s := by
      apply flatMap_crlf_of_notMem
      rwa [itemPieces_text]
    rw [Text.crlf_append, Text.crlf_break, Text.crlf_of_notMem hs,
      itemPieces_append s (endsRun_crlf_break _), itemPieces_cons hcr, itemPieces_cons hlf, ih,
      itemPieces_append s (endsRun_cons.2 isPathChar_newline), itemPieces_cons hlf,
      List.flatMap_append, hline, List.flatMap_cons]
    rfl

theorem first_crlf (t : Text) : (runs t.crlf).first = (runs t).first := by
  induction t using Text.lines_induction with
  | line s hs => rw [Text.crlf_of_notMem hs]
  | below s t hs ih =>
    rw [Text.crlf_append, Text.crlf_break, Text.crlf_of_notMem hs, runs_append s (endsRun_crlf_break _),
      runs_append s (endsRun_cons.2 isPathChar_newline)]

theorem opens_crlf (c : Char) (t : Text) : opens c t.crlf = opens c t := by
  rw [← opens_first, first_crlf, opens_first]

theorem closes_crlf (c : Char) (t : Text) : closes c t.crlf = closes c t := by
  rw [← closes_first, first_crlf, closes_first]

theorem toCloser_crlf (t : Text) :
    toCloser t.crlf = (toCloser t).map fun (g, a) ↦ (g.crlf, a.crlf) := by
  induction t with
  | nil => rfl
  | cons c t ih =>
    by_cases hbreak : c = '\n'
    · subst hbreak
      rw [Text.crlf_break, toCloser_cons_of_ne (by decide), toCloser_cons_of_ne (by decide), ih,
        toCloser_cons_of_ne (by decide)]
      simp only [Option.map_map]
      rfl
    · rw [Text.crlf_cons hbreak, toCloser, toCloser, closes_crlf]
      split
      · rename_i hclose
        obtain ⟨r, rfl⟩ : closer <+: t := by simpa using (Bool.and_eq_true_iff.1 hclose).2
        obtain rfl : c = '~' := by simpa using (Bool.and_eq_true_iff.1 hclose).1
        rw [Text.crlf_append, Text.crlf_of_notMem (by decide), List.drop_left, Option.map_some,
          List.drop_left]
        rfl
      · rw [ih, Option.map_map, Option.map_map]
        congr 1
        funext p
        exact congrArg (·, p.2.crlf) (Text.crlf_cons hbreak p.1).symm

def Section.crlf : Section → List Section
  | .plain c => (Text.crlf [c]).map .plain
  | .block region => [.block region.crlf]

theorem sections_crlf (t : Text) : sections t.crlf = (sections t).flatMap Section.crlf := by
  induction t using sections_induction with
  | nil => rfl
  | plain c t ho ih =>
    rw [sections_plain ho, List.flatMap_cons, ← ih]
    by_cases hbreak : c = '\n'
    · subst hbreak
      rw [Text.crlf_break, sections_plain rfl, sections_plain rfl]
      rfl
    · rw [Text.crlf_cons hbreak, sections_plain ((opens_crlf c t).trans ho), Section.crlf,
        Text.crlf_cons hbreak]
      rfl
  | unclosed c t ho hclose ih =>
    obtain rfl : c = '~' := by simpa using (Bool.and_eq_true_iff.1 ho).1
    have hnone : toCloser t.crlf = none := by
      rw [toCloser_crlf, hclose]
      rfl
    rw [Text.crlf_cons (by decide), sections_unclosed hnone, sections_unclosed hclose,
      List.flatMap_cons, ← ih]
    rfl
  | block c t g a ho hclose ih =>
    obtain rfl : c = '~' := by simpa using (Bool.and_eq_true_iff.1 ho).1
    have hsome : toCloser t.crlf = some (g.crlf, a.crlf) := by
      rw [toCloser_crlf, hclose]
      rfl
    rw [Text.crlf_cons (by decide), sections_block ((opens_crlf _ t).trans ho) hsome,
      sections_block ho hclose, List.flatMap_cons, ← ih, Section.crlf, Text.crlf_cons (by decide)]
    rfl

theorem parse_firstLine_crlf (region : Text) :
    Head.parse region.crlf.firstLine = Head.parse region.firstLine := by
  by_cases h : '\n' ∈ region
  · have hcr : itemPaths ['\r'] = [] := by decide
    apply parse_congr
    rw [Text.firstLine_crlf h, itemPaths_append _ (by decide), hcr, List.append_nil]
  · rw [Text.crlf_of_notMem h]

/-- What the line feed behind the last line of a body leaves of its line end: its carriage return. -/
def strayReturn (region : Text) : Text :=
  if 2 ≤ region.count '\n' then ['\r'] else []

theorem strayReturn_eq (region : Text) : strayReturn region = [] ∨ strayReturn region = ['\r'] := by
  rw [strayReturn]
  split
  · exact .inr rfl
  · exact .inl rfl

theorem crlf_eq_append_strayReturn (region : Text) :
    ['\r', '\n'] = strayReturn region ++ ['\r', '\n'] ↔ ¬ 2 ≤ region.count '\n' := by
  rw [strayReturn]
  split
  · rename_i h
    exact iff_of_false (by decide) (not_not_intro h)
  · rename_i h
    exact iff_of_true rfl h

theorem strayReturn_append_eq_crlf (region : Text) :
    strayReturn region ++ ['\n'] = ['\r', '\n'] ↔ 2 ≤ region.count '\n' := by
  rw [strayReturn]
  split
  · rename_i h
    exact iff_of_true rfl h
  · rename_i h
    exact iff_of_false (by decide) h

theorem strayReturn_suffix (region : Text) : strayReturn region ++ ['\n'] <:+ ['\r', '\n'] := by
  rw [strayReturn]
  split
  · exact List.suffix_refl _
  · exact List.suffix_append ['\r'] _

theorem bodyOf_crlf (region : Text) :
    bodyOf region.crlf = (bodyOf region).crlf ++ strayReturn region := by
  by_cases h : '\n' ∈ region
  · obtain ⟨s, t, rfl, hs⟩ := List.eq_append_cons_of_mem h
    have hr : '\n' ∉ s ++ ['\r'] := by
      rw [List.mem_append, List.mem_singleton]
      exact not_or.2 ⟨hs, by decide⟩
    have hcrlf : Text.crlf (s ++ '\n' :: t) = s ++ ['\r'] ++ '\n' :: Text.crlf t := by
      rw [Text.crlf_append, Text.crlf_of_notMem hs, Text.crlf_break, List.append_assoc]
      rfl
    have hcount : (s ++ '\n' :: t).count '\n' = 1 + t.count '\n' := by
      rw [List.count_append, List.count_cons_self, List.count_eq_zero.2 hs]
      omega
    rw [hcrlf, bodyOf_append hr, bodyOf_append hs, strayReturn, hcount]
    by_cases ht : '\n' ∈ t
    · obtain ⟨m, r, rfl, hlast⟩ := Text.exists_last_break ht
      have hm : Text.crlf (m ++ '\n' :: r) = Text.crlf m ++ ['\r'] ++ '\n' :: r := by
        rw [Text.crlf_append, Text.crlf_break, Text.crlf_of_notMem hlast, List.append_assoc]
        rfl
      have hlong : 2 ≤ 1 + (m ++ '\n' :: r).count '\n' := by
        have hpos := List.count_pos_iff.2 ht
        omega
      rw [hm, Text.beforeLastBreak_append _ hlast, Text.beforeLastBreak_append _ hlast, if_pos hlong]
      rfl
    · have hshort : ¬ 2 ≤ 1 + t.count '\n' := by
        rw [List.count_eq_zero.2 ht]
        omega
      have hnone : Text.beforeLastBreak t = none := Text.beforeLastBreak_append_of_notMem [] ht
      rw [Text.crlf_of_notMem ht, hnone, if_neg hshort]
      rfl
  · have hshort : ¬ 2 ≤ region.count '\n' := by
      rw [List.count_eq_zero.2 h]
      omega
    rw [Text.crlf_of_notMem h, bodyOf_of_notMem h, strayReturn, if_neg hshort]
    rfl

theorem map_region_crlf (t : Text) :
    (blocks t.crlf).map (Block.region · t.crlf) = (blocks t).map fun b ↦ (b.region t).crlf := by
  have hsection (sec : Section) :
      sec.crlf.filterMap Section.region? = (sec.region?.map Text.crlf).toList := by
    cases sec with
    | plain c =>
      rw [Section.crlf, List.filterMap_map]
      exact List.filterMap_eq_nil_iff.2 fun _ _ ↦ rfl
    | block region => rfl
  have hmap : (blocks t).map (fun b ↦ (b.region t).crlf) =
      ((blocks t).map (Block.region · t)).map Text.crlf := by
    rw [List.map_map]
    rfl
  rw [map_region_blocks, sections_crlf, hmap, map_region_blocks]
  induction sections t with
  | nil => rfl
  | cons sec ss ih =>
    rw [List.flatMap_cons, List.filterMap_append, ih, hsection, List.filterMap_cons]
    cases sec.region? <;> rfl

theorem gaps_crlf (t : Text) : t.crlf.gaps ((blocks t.crlf).map Block.span) =
    (t.gaps ((blocks t).map Block.span)).map Text.crlf := by
  rw [gaps_blocks, gaps_blocks, sections_crlf]
  induction sections t with
  | nil => rfl
  | cons sec ss ih =>
    cases sec with
    | plain c =>
      rw [List.flatMap_cons, Section.crlf, sectionGaps_plain_append, ih, sectionGaps]
      cases sectionGaps ss with
      | nil => rfl
      | cons w ws => exact congrArg (· :: ws.map Text.crlf) (Text.crlf_append [c] w).symm
    | block region =>
      rw [List.flatMap_cons, sectionGaps, List.map_cons, ← ih]
      rfl

end TildeMerge.Markup
