import TildeMerge.Proofs.Markup.Regions

namespace TildeMerge.Markup

variable {t : Text}

def Section.region? : Section → Option Text
  | .plain _ => none
  | .block region => some region

def Block.region (b : Block) (t : Text) : Text :=
  t.slice b.start b.stop

theorem eq_ofRegion_of_mem_locateBlocks (s : Text) (ss : List Section) :
    ∀ b ∈ locateBlocks s.size ss,
      b = .ofRegion b.start (b.region (s ++ ss.flatMap Section.text)) := by
  induction ss generalizing s with
  | nil => exact List.forall_mem_nil _
  | cons sec ss ih =>
    have hrest := ih (s ++ sec.text)
    rw [Text.size_append, List.append_assoc] at hrest
    cases sec with
    | plain c => exact hrest
    | block region =>
      rw [locateBlocks, List.forall_mem_cons]
      refine ⟨?_, hrest⟩
      have hslice : Block.region (.ofRegion s.size region)
          (s ++ (Section.block region :: ss).flatMap Section.text) = region :=
        Text.slice_append s region _
      rw [hslice]
      rfl

theorem map_region_locateBlocks (s : Text) (ss : List Section) :
    (locateBlocks s.size ss).map (Block.region · (s ++ ss.flatMap Section.text)) =
      ss.filterMap Section.region? := by
  induction ss generalizing s with
  | nil => rfl
  | cons sec ss ih =>
    have hrest := ih (s ++ sec.text)
    rw [Text.size_append, List.append_assoc] at hrest
    cases sec with
    | plain c => exact hrest
    | block region =>
      have hslice : Block.region (.ofRegion s.size region)
          (s ++ (Section.block region :: ss).flatMap Section.text) = region :=
        Text.slice_append s region _
      rw [locateBlocks, List.map_cons, hslice]
      exact congrArg (region :: ·) hrest

theorem eq_ofRegion_of_mem_blocks {b : Block} (h : b ∈ blocks t) :
    b = .ofRegion b.start (b.region t) := by
  have hall := eq_ofRegion_of_mem_locateBlocks [] (sections t)
  rw [List.nil_append, sections_text] at hall
  exact hall b h

theorem map_region_blocks (t : Text) :
    (blocks t).map (Block.region · t) = (sections t).filterMap Section.region? := by
  have hall := map_region_locateBlocks [] (sections t)
  rw [List.nil_append, sections_text] at hall
  exact hall

/-- The characters outside every block, those before, between and behind the blocks apart. -/
def sectionGaps : List Section → List Text
  | [] => [[]]
  | .plain c :: ss => (sectionGaps ss).modifyHead (c :: ·)
  | .block _ :: ss => [] :: sectionGaps ss

theorem sectionGaps_ne_nil (ss : List Section) : sectionGaps ss ≠ [] := by
  induction ss with
  | nil => exact List.cons_ne_nil _ _
  | cons sec ss ih =>
    cases sec with
    | plain c =>
      intro h
      exact ih (List.modifyHead_eq_nil_iff.1 h)
    | block region => exact List.cons_ne_nil _ _

theorem sectionGaps_plain_append (w : Text) (ss : List Section) :
    sectionGaps (w.map .plain ++ ss) = (sectionGaps ss).modifyHead (w ++ ·) := by
  induction w with
  | nil =>
    rw [List.map_nil, List.nil_append]
    cases sectionGaps ss <;> rfl
  | cons c w ih =>
    rw [List.map_cons, List.cons_append, sectionGaps, ih, List.modifyHead_modifyHead]
    rfl

theorem gapsFrom_locateBlocks (s g : Text) (ss : List Section) :
    Text.gapsFrom (s ++ (g ++ ss.flatMap Section.text)) s.size
        ((locateBlocks (s ++ g).size ss).map Block.span) =
      (sectionGaps ss).modifyHead (g ++ ·) := by
  induction ss generalizing s g with
  | nil =>
    rw [List.flatMap_nil, List.append_nil]
    exact congrArg (fun w ↦ [w]) ((Text.slice_end s g).trans (List.append_nil g).symm)
  | cons sec ss ih =>
    cases sec with
    | plain c =>
      have hrest := ih s (g ++ [c])
      have hsize : (s ++ (g ++ [c])).size = (s ++ g).size + c.utf8Size := by
        simp only [Text.size_append, Nat.add_assoc]
        rfl
      rw [hsize, List.append_assoc] at hrest
      rw [sectionGaps, List.modifyHead_modifyHead]
      refine hrest.trans ?_
      congr 1
      funext w
      exact List.append_assoc g [c] w
    | block region =>
      have hrest := ih (s ++ (g ++ region)) []
      have hsize : (s ++ (g ++ region)).size = (s ++ g).size + region.size := by
        simp only [Text.size_append, Nat.add_assoc]
      have hslice := Text.slice_append s g (region ++ ss.flatMap Section.text)
      rw [List.append_nil, hsize, List.nil_append, List.append_assoc, List.append_assoc] at hrest
      rw [← Text.size_append] at hslice
      rw [locateBlocks, List.map_cons, span_ofRegion, Text.gapsFrom, List.flatMap_cons, Section.text,
        hslice, hrest, sectionGaps, List.modifyHead_cons, List.append_nil]
      congr 1
      cases sectionGaps ss <;> rfl

theorem gaps_blocks (t : Text) :
    t.gaps ((blocks t).map Block.span) = sectionGaps (sections t) := by
  have h := gapsFrom_locateBlocks [] [] (sections t)
  rw [List.nil_append, List.nil_append, sections_text] at h
  refine h.trans ?_
  cases sectionGaps (sections t) <;> rfl

end TildeMerge.Markup
