import TildeMerge.Proofs.Markup.Pieces
import TildeMerge.Proofs.Passes
import TildeMerge.Proofs.Text.Offsets

namespace TildeMerge

open Markup

variable {t : Text}

def Markup.Placeholder.span (p : Placeholder) : Nat × Nat :=
  (p.start, p.stop)

/-- The induction is on the pieces behind the text `s`, up to which all is done, and the gap `g` that
has been read behind it. -/
theorem splice_eq (resolve : Text → Logged Text) {marker : Char} (hm : marker.utf8Size = 1)
    (s g : Text) (ps : List Piece) :
    (g ++ ·) <$> splice resolve ps =
      Text.alternate (Text.gapsFrom (s ++ (g ++ ps.flatMap (Piece.text marker))) s.size
        ((locate (s ++ g).size ps).map Placeholder.span)) <$>
        (locate (s ++ g).size ps).mapM fun p ↦ resolve p.path := by
  induction ps generalizing s g with
  | nil =>
    simp only [splice, locate, List.map_nil, List.mapM_nil, map_pure, List.flatMap_nil,
      List.append_nil, Text.gapsFrom, Text.slice_end, Text.alternate, List.flatten_cons,
      List.flatten_nil]
  | cons piece ps ih =>
    cases piece with
    | plain c =>
      have hrest := ih s (g ++ [c])
      have hsize : (s ++ (g ++ [c])).size = (s ++ g).size + c.utf8Size := by
        simp only [Text.size_append, Nat.add_assoc]
        rfl
      rw [hsize] at hrest
      simpa [splice, locate, Piece.text] using hrest
    | placeholder path =>
      have hrest := ih (s ++ (g ++ marker :: path)) []
      have hsize : (s ++ (g ++ marker :: path)).size = (s ++ g).size + 1 + path.size := by
        simp only [Text.size_append, Text.size_cons, hm]
        omega
      have hslice := Text.slice_append s g (marker :: path ++ ps.flatMap (Piece.text marker))
      simp only [List.append_nil, List.nil_append, id_map', hsize, List.append_assoc] at hrest
      rw [← Text.size_append] at hslice
      simp only [splice, hrest, locate, List.map_cons, List.mapM_cons, List.flatMap_cons,
        Piece.text, Placeholder.span, Text.gapsFrom, hslice]
      simp only [← bind_pure_comp, bind_assoc, pure_bind, Text.alternate, List.append_assoc]

theorem plain_text (marker : Char) (t : Text) :
    (t.map Piece.plain).flatMap (Piece.text marker) = t := by
  rw [List.flatMap_map]
  exact List.flatMap_singleton' t

theorem runPieces_text (run : Text) : (runPieces run).flatMap (Piece.text '.') = run := by
  have hsplit : run.takeWhile (· != '.') ++ run.dropWhile (· != '.') = run :=
    List.takeWhile_append_dropWhile
  unfold runPieces
  dsimp only
  split
  · rename_i d c path hdrop
    obtain rfl : d = '.' := by
      have hne : run.dropWhile (· != '.') ≠ [] := by simp [hdrop]
      simpa [hdrop] using List.head_dropWhile_not (· != '.') hne
    rw [List.flatMap_append, plain_text]
    rw [hdrop] at hsplit
    simpa [Piece.text] using hsplit
  · exact plain_text '.' run

theorem itemPieces_text (t : Text) : (itemPieces t).flatMap (Piece.text '.') = t := by
  have hrest (rest : List (Char × Text)) :
      (rest.flatMap fun p ↦ Piece.plain p.1 :: runPieces p.2).flatMap (Piece.text '.') =
        rest.flatMap fun p ↦ p.1 :: p.2 := by
    rw [List.flatMap_assoc]
    refine List.flatMap_congr fun p _ ↦ ?_
    rw [List.flatMap_cons, runPieces_text]
    rfl
  calc (itemPieces t).flatMap (Piece.text '.') =
        (runPieces (runs t).first).flatMap (Piece.text '.') ++
          ((runs t).rest.flatMap fun p ↦ .plain p.1 :: runPieces p.2).flatMap (Piece.text '.') :=
        List.flatMap_append
    _ = (runs t).first ++ (runs t).rest.flatMap fun p ↦ p.1 :: p.2 := by
        rw [runPieces_text, hrest]
    _ = t := text_runs t

theorem scalarPieces_text (t : Text) : (scalarPieces t).flatMap (Piece.text '~') = t := by
  have hrun (p : Char × Text) :
      (if p.1 == '~' && p.2.startsWord then [.placeholder p.2] else (p.1 :: p.2).map .plain).flatMap
        (Piece.text '~') = p.1 :: p.2 := by
    split
    · rename_i hplace
      have htilde : p.1 = '~' := by simpa using (Bool.and_eq_true_iff.1 hplace).1
      simp [Piece.text, htilde]
    · exact plain_text '~' (p.1 :: p.2)
  calc (scalarPieces t).flatMap (Piece.text '~') =
        (runs t).first ++ (runs t).rest.flatMap fun p ↦ p.1 :: p.2 := by
        rw [scalarPieces, List.flatMap_append, plain_text, List.flatMap_assoc]
        exact congrArg _ (List.flatMap_congr fun p _ ↦ hrun p)
    _ = t := text_runs t

theorem splice_locate (resolve : Text → Logged Text) {marker : Char} (hm : marker.utf8Size = 1)
    (ps : List Piece) :
    splice resolve ps =
      Text.alternate (Text.gaps (ps.flatMap (Piece.text marker))
        ((locate 0 ps).map Placeholder.span)) <$> (locate 0 ps).mapM fun p ↦ resolve p.path := by
  have h := splice_eq resolve hm [] [] ps
  simp only [List.nil_append, id_map'] at h
  exact h

theorem splice_scalarPieces (resolve : Text → Logged Text) (t : Text) :
    splice resolve (scalarPieces t) =
      Text.alternate (t.gaps ((scalars t).map Placeholder.span)) <$>
        (scalars t).mapM fun p ↦ resolve p.path := by
  have htilde : Char.utf8Size '~' = 1 := rfl
  have h := splice_locate resolve htilde (scalarPieces t)
  rw [scalarPieces_text] at h
  exact h

theorem splice_itemPieces (resolve : Text → Logged Text) (t : Text) :
    splice resolve (itemPieces t) =
      Text.alternate (t.gaps ((itemRefs t).map Placeholder.span)) <$>
        (itemRefs t).mapM fun r ↦ resolve r.path := by
  have hdot : Char.utf8Size '.' = 1 := rfl
  have h := splice_locate resolve hdot (itemPieces t)
  rw [itemPieces_text] at h
  exact h

end TildeMerge
