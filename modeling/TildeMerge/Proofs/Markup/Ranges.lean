import TildeMerge.Proofs.Markup.RegionLines
import TildeMerge.Proofs.Markup.Tokens
import TildeMerge.Proofs.Results
import TildeMerge.Proofs.Splicing
import TildeMerge.Proofs.Text.Boundaries

namespace TildeMerge.Markup

variable {t : Text} {b : Block}

theorem canCutGaps_locate {marker : Char} (hm : marker.utf8Size = 1) (s g : Text) (ps : List Piece) :
    Text.CanCutGaps (s ++ (g ++ ps.flatMap (Piece.text marker))) s.size
      ((locate (s ++ g).size ps).map Placeholder.span) := by
  induction ps generalizing s g with
  | nil =>
    rw [List.flatMap_nil, List.append_nil]
    exact Text.canCut_end s g
  | cons piece ps ih =>
    cases piece with
    | plain c =>
      have hrest := ih s (g ++ [c])
      rw [← List.append_assoc s g [c], Text.size_append (s ++ g), List.append_assoc] at hrest
      exact hrest
    | placeholder path =>
      have hrest := ih (s ++ (g ++ marker :: path)) []
      have hstop : (s ++ (g ++ marker :: path)).size = (s ++ g).size + 1 + path.size := by
        simp only [Text.size_append, Text.size_cons, hm]
        omega
      rw [List.append_nil, hstop, List.nil_append, List.append_assoc, List.append_assoc] at hrest
      exact ⟨Text.canCut_append s g _, hrest⟩

theorem canCutGaps_locateBlocks (s g : Text) (ss : List Section) :
    Text.CanCutGaps (s ++ (g ++ ss.flatMap Section.text)) s.size
      ((locateBlocks (s ++ g).size ss).map Block.span) := by
  induction ss generalizing s g with
  | nil =>
    rw [List.flatMap_nil, List.append_nil]
    exact Text.canCut_end s g
  | cons sec ss ih =>
    cases sec with
    | plain c =>
      have hrest := ih s (g ++ [c])
      rw [← List.append_assoc s g [c], Text.size_append (s ++ g), List.append_assoc] at hrest
      exact hrest
    | block region =>
      have hrest := ih (s ++ (g ++ region)) []
      have hstop : (s ++ (g ++ region)).size = (s ++ g).size + region.size := by
        simp only [Text.size_append, Nat.add_assoc]
      rw [List.append_nil, hstop, List.nil_append, List.append_assoc, List.append_assoc] at hrest
      exact ⟨Text.canCut_append s g _, hrest⟩

theorem canCutGaps_scalars (t : Text) : t.CanCutGaps 0 ((scalars t).map Placeholder.span) := by
  have h := canCutGaps_locate (rfl : Char.utf8Size '~' = 1) [] [] (scalarPieces t)
  rw [scalarPieces_text] at h
  exact h

theorem canCutGaps_itemRefs (t : Text) : t.CanCutGaps 0 ((itemRefs t).map Placeholder.span) := by
  have h := canCutGaps_locate (rfl : Char.utf8Size '.' = 1) [] [] (itemPieces t)
  rw [itemPieces_text] at h
  exact h

theorem canCutGaps_blocks (t : Text) : t.CanCutGaps 0 ((blocks t).map Block.span) := by
  have h := canCutGaps_locateBlocks [] [] (sections t)
  rw [sections_text] at h
  exact h

theorem tail_append_block (ss : List Section) (region : Text) (rest : List Section) :
    tail (ss ++ .block region :: rest) = tail rest := by
  unfold tail
  rw [List.reverse_append, List.reverse_cons, List.append_assoc, List.takeWhile_append]
  split
  · rename_i hall
    rw [(List.takeWhile_prefix _).eq_of_length hall]
    simp
  · rfl

theorem modifyHead_nil_append (gs : List Text) : gs.modifyHead ([] ++ ·) = gs := by
  cases gs <;> rfl

theorem getLast?_sectionGaps (g : Text) (ss : List Section) :
    ((sectionGaps ss).modifyHead (g ++ ·)).getLast? = some (tail (g.map .plain ++ ss)) := by
  induction ss generalizing g with
  | nil => simp [sectionGaps, tail_plain]
  | cons sec ss ih =>
    cases sec with
    | plain c =>
      have hrest := ih (g ++ [c])
      rw [sectionGaps, List.modifyHead_modifyHead]
      simpa [Function.comp_def] using hrest
    | block region =>
      have hrest := ih []
      rw [modifyHead_nil_append] at hrest
      rw [tail_append_block, sectionGaps, List.modifyHead_cons,
        List.getLast?_cons_of_ne_nil (sectionGaps_ne_nil ss)]
      exact hrest

theorem getLast?_gaps_blocks (t : Text) :
    (t.gaps ((blocks t).map Block.span)).getLast? = some (tail (sections t)) := by
  have h := getLast?_sectionGaps [] (sections t)
  rwa [modifyHead_nil_append, ← gaps_blocks] at h

theorem canCut_region (hb : b ∈ blocks t) : t.CanCut b.start b.stop := by
  have hspan : b.span ∈ (blocks t).map Block.span := List.mem_map_of_mem hb
  refine (canCutGaps_blocks t).canCut _ hspan ?_
  have hstop := congrArg Block.stop (eq_ofRegion_of_mem_blocks hb)
  exact (Nat.le_add_right _ _).trans_eq hstop.symm

/-- The first line of a region, and what stands between its first and its last line feed. -/
def cutLines? (region : Text) : Option (Text × Text) :=
  match region.findBreak, region.findLastBreak with
  | none, _ => some (region, [])
  | some first, last => do
    let headLine ← region.cut? 0 first
    match last with
    | none => return (headLine, [])
    | some last =>
      let body ← if first < last then region.cut? (first + 1) last else some []
      return (headLine, body)

def cutBlock? (t : Text) (start stop : Nat) : Option Block := do
  let region ← t.cut? start stop
  let (headLine, body) ← cutLines? region
  return ⟨start, stop, headLine, body⟩

theorem cutLines?_eq (region : Text) : cutLines? region = some (region.firstLine, bodyOf region) := by
  rcases lines_cases region with hone | ⟨s, l, rfl, hs, hl⟩ | ⟨s, m, l, rfl, hs, hl⟩
  · rw [cutLines?, Text.findBreak_of_notMem hone, Text.firstLine_of_notMem hone,
      bodyOf_of_notMem hone]
  · have hhead : Text.cut? (s ++ '\n' :: l) 0 s.size = some s := Text.cut?_append [] s _
    rw [cutLines?, Text.findBreak_append hs, Text.findLastBreak_append s hl,
      Text.firstLine_append hs, bodyOf_twoLines hs hl]
    simp [hhead]
  · have hhead : Text.cut? (s ++ '\n' :: (m ++ '\n' :: l)) 0 s.size = some s :=
      Text.cut?_append [] s _
    have hbreak : Text.size (s ++ ['\n']) = s.size + 1 := Text.size_append s ['\n']
    have hsize : Text.size (s ++ '\n' :: m) = s.size + 1 + Text.size m := by
      rw [← hbreak, ← Text.size_append, List.append_assoc, List.singleton_append]
    have hbody := Text.cut?_append (s ++ ['\n']) m ('\n' :: l)
    have hlast := Text.findLastBreak_append (s ++ '\n' :: m) hl
    rw [List.append_assoc, List.singleton_append, Text.size_append _ m, hbreak] at hbody
    rw [List.append_assoc, List.cons_append, hsize] at hlast
    have hlt : s.size < s.size + 1 + Text.size m := by omega
    rw [cutLines?, Text.findBreak_append hs, hlast, Text.firstLine_append hs, bodyOf_lines hs m hl]
    simp [hhead, hbody, hlt]

theorem cutBlock?_of_mem_blocks (hb : b ∈ blocks t) : cutBlock? t b.start b.stop = some b := by
  have hblock := eq_ofRegion_of_mem_blocks hb
  have hcut : t.cut? b.start b.stop = some (b.region t) := Text.cut?_of_canCut (canCut_region hb)
  have hhead : b.headLine = (b.region t).firstLine := congrArg Block.headLine hblock
  have hbody : b.body = bodyOf (b.region t) := congrArg Block.body hblock
  rw [cutBlock?, hcut, Option.bind_eq_bind, Option.bind_some, cutLines?_eq, ← hhead, ← hbody]
  rfl

theorem canCut_token {p : Nat × Text} (hp : p ∈ tokensFrom 0 t) : t.CanCut 0 p.1 := by
  obtain ⟨-, s, u, rfl, hsize, -⟩ := ((lists_tokensFrom t).mem_iff p.1 p.2).1 hp
  rw [← hsize]
  exact Text.canCut_append [] s _

def cutLeftovers? (t : Text) : Option (List Leftover) :=
  (tokensFrom 0 t).mapM fun p ↦ do
    let before ← t.cut? 0 p.1
    return ⟨before.count '\n' + 1, p.2⟩

theorem cutLeftovers?_eq (t : Text) : cutLeftovers? t = some (leftovers t) := by
  have hpure : (tokensFrom 0 t).mapM (fun p ↦ pure (leftoverAt t p)) = some (leftovers t) := by
    rw [List.mapM_pure, leftovers_eq]
    rfl
  rw [cutLeftovers?, ← hpure]
  refine mapM_congr fun p hp ↦ ?_
  rw [Text.cut?_of_canCut (canCut_token hp), Text.slice_zero, leftoverAt, Text.lineAt, Nat.add_comm]
  rfl

end TildeMerge.Markup
