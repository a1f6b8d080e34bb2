import TildeMerge.Proofs.Composition
import TildeMerge.Proofs.NamedData
import TildeMerge.Proofs.Replacement
import TildeMerge.Proofs.Splicing

namespace TildeMerge

open Markup

variable {t : Text} {marker : Char} {resolve : Text → Logged Text} {ps : List Piece} {x : Text}
variable {err : Error}

theorem Text.length_gapsFrom (t : Text) (start : Nat) (spans : List (Nat × Nat)) :
    (t.gapsFrom start spans).length = spans.length + 1 := by
  induction spans generalizing start with
  | nil => rfl
  | cons span spans ih =>
    obtain ⟨a, z⟩ := span
    rw [Text.gapsFrom, List.length_cons, ih, List.length_cons]

/-- How the placeholders of a scan stand in the text, and what becomes of it when other texts are put in
their place. -/
structure Reassembles (marker : Char) (t : Text) (ps : List Piece) (refs : List Placeholder) :
    Prop where
  length_gaps : (t.gaps (refs.map Placeholder.span)).length = refs.length + 1
  token : ∀ r ∈ refs, t.slice r.start r.stop = marker :: r.path
  text : Text.alternate (t.gaps (refs.map Placeholder.span)) (refs.map fun r ↦ marker :: r.path) = t
  itself : splice (fun path ↦ pure (marker :: path)) ps = pure t
  eq_ok : ∀ (resolve : Text → Logged Text) (x : Text), (splice resolve ps).result = .ok x ↔
    ∃ texts, List.Forall₂ (fun r s ↦ (resolve r.path).result = .ok s) refs texts ∧
      x = Text.alternate (t.gaps (refs.map Placeholder.span)) texts
  eq_error : ∀ (resolve : Text → Logged Text) (err : Error), (splice resolve ps).result = .error err ↔
    ∃ done r rest, refs = done ++ r :: rest ∧ (∀ d ∈ done, ∃ s, (resolve d.path).result = .ok s) ∧
      (resolve r.path).result = .error err

theorem slice_of_mem_locate (hm : marker.utf8Size = 1) (s : Text) :
    ∀ r ∈ locate s.size ps,
      Text.slice (s ++ ps.flatMap (Piece.text marker)) r.start r.stop = marker :: r.path := by
  induction ps generalizing s with
  | nil => exact List.forall_mem_nil _
  | cons piece ps ih =>
    cases piece with
    | plain c =>
      have hrest := ih (s ++ [c])
      rw [Text.size_append, List.append_assoc] at hrest
      exact hrest
    | placeholder path =>
      have hstop : s.size + 1 + path.size = s.size + Text.size (marker :: path) := by
        rw [Text.size_cons, hm, Nat.add_assoc]
      have hrest := ih (s ++ marker :: path)
      rw [Text.size_append, List.append_assoc, ← hstop] at hrest
      rw [locate, List.forall_mem_cons]
      refine ⟨?_, hrest⟩
      rw [hstop]
      exact Text.slice_append s (marker :: path) _

theorem splice_itself (marker : Char) (ps : List Piece) :
    splice (fun path ↦ pure (marker :: path)) ps = pure (ps.flatMap (Piece.text marker)) := by
  induction ps with
  | nil => rfl
  | cons piece ps ih =>
    cases piece with
    | plain c =>
      rw [splice, ih, map_pure]
      rfl
    | placeholder path =>
      rw [splice, ih, pure_bind, map_pure]
      rfl

theorem mapM_pure_eq (f : Text → Text) (refs : List Placeholder) :
    (refs.mapM fun r ↦ (pure (f r.path) : Logged Text)) = pure (refs.map fun r ↦ f r.path) := by
  induction refs with
  | nil => rfl
  | cons r refs ih => rw [List.mapM_cons, ih, pure_bind, pure_bind, List.map_cons]

theorem splice_result (hm : marker.utf8Size = 1) : (splice resolve ps).result =
    Text.alternate (Text.gaps (ps.flatMap (Piece.text marker)) ((locate 0 ps).map Placeholder.span)) <$>
      (locate 0 ps).mapM fun r ↦ (resolve r.path).result := by
  rw [splice_locate resolve hm, Logged.map_result, mapM_result]
  rfl

theorem splice_eq_ok (hm : marker.utf8Size = 1) : (splice resolve ps).result = .ok x ↔
    ∃ texts, List.Forall₂ (fun r s ↦ (resolve r.path).result = .ok s) (locate 0 ps) texts ∧
      x = Text.alternate (Text.gaps (ps.flatMap (Piece.text marker))
        ((locate 0 ps).map Placeholder.span)) texts := by
  simp only [splice_result hm, map_eq_ok, mapM_eq_ok, @eq_comm _ x]

theorem splice_eq_error (hm : marker.utf8Size = 1) : (splice resolve ps).result = .error err ↔
    ∃ done r rest, locate 0 ps = done ++ r :: rest ∧
      (∀ d ∈ done, ∃ s, (resolve d.path).result = .ok s) ∧ (resolve r.path).result = .error err := by
  rw [splice_result hm, map_eq_error, mapM_eq_error]

theorem reassembles_pieces (marker : Char) (hm : marker.utf8Size = 1) (ps : List Piece) :
    Reassembles marker (ps.flatMap (Piece.text marker)) ps (locate 0 ps) where
  length_gaps := by rw [Text.gaps, Text.length_gapsFrom, List.length_map]
  token := slice_of_mem_locate hm []
  text := by
    have h := splice_locate (fun path ↦ pure (marker :: path)) hm ps
    rw [splice_itself, mapM_pure_eq, map_pure] at h
    exact (Except.ok.inj (congrArg Logged.result h)).symm
  itself := splice_itself marker ps
  eq_ok _ _ := splice_eq_ok hm
  eq_error _ _ := splice_eq_error hm

theorem reassembles_scalars (t : Text) : Reassembles '~' t (scalarPieces t) (scalars t) := by
  have h := reassembles_pieces '~' rfl (scalarPieces t)
  rw [scalarPieces_text] at h
  exact h

theorem reassembles_itemRefs (t : Text) : Reassembles '.' t (itemPieces t) (itemRefs t) := by
  have h := reassembles_pieces '.' rfl (itemPieces t)
  rw [itemPieces_text] at h
  exact h

/-- The record holds for each placeholder of the text what stands there. -/
def HoldsItself (record : Value) (t : Text) : Prop :=
  ∀ p ∈ scalars t, record.lookup p.path = some (.text ('~' :: p.path))

theorem scalarPass_of_holdsItself (e : Engine) {record : Value} (h : HoldsItself record t) :
    (e.scalarPass t record).result = .ok t := by
  have hresolve : ∀ path ∈ (scalarPieces t).filterMap Piece.path?,
      resolveIn record e.options.missing path = pure ('~' :: path) := by
    rw [← map_path_locate 0, List.forall_mem_map]
    intro p hp
    rw [resolveIn, h p hp]
    rfl
  rw [Engine.scalarPass, splice_congr hresolve, (reassembles_scalars t).itself]
  rfl

/-- No scan of a text loses anything: its placeholders stand where it says, and with what else there is
they make up the text, which comes back when each of them is replaced by itself. Other texts come to stand
between the same gaps. So a template without blocks is its own render if each of its fields holds the
placeholder that names it. -/
theorem scans_lose_nothing (t : Text) :
    Reassembles '~' t (scalarPieces t) (scalars t) ∧ Reassembles '.' t (itemPieces t) (itemRefs t) ∧
      ∀ (e : Engine) (record : Value), blocks t = [] → HoldsItself record t →
        (e.render t record).result = .ok t := by
  refine ⟨reassembles_scalars t, reassembles_itemRefs t, ?_⟩
  intro e record hblocks hrecord
  rw [render_eq_ok]
  exact ⟨t, scalarPass_of_holdsItself e hrecord, blockPass_of_blocks_eq_nil hblocks⟩

def tildeRuns : Text :=
  ['é', '~', 'a', '.', 'b', '~', '~', 'c', '.', 'é', '~', '.', 'x']

def tildeRunsRecord : Value :=
  .record [(['a', '.', 'b'], .text ['~', 'a', '.', 'b']), (['c', '.'], .text ['~', 'c', '.'])]

theorem scans_lose_nothing_tildeRuns :
    scalars tildeRuns = [⟨2, 6, ['a', '.', 'b']⟩, ⟨7, 10, ['c', '.']⟩] ∧ blocks tildeRuns = [] ∧
      HoldsItself tildeRunsRecord tildeRuns ∧
      (({ options := { missing := .strict } } : Engine).render tildeRuns tildeRunsRecord).result =
        .ok tildeRuns := by
  have hrefs : scalars tildeRuns = [⟨2, 6, ['a', '.', 'b']⟩, ⟨7, 10, ['c', '.']⟩] := by decide
  have hblocks : blocks tildeRuns = [] := by decide
  have hrecord : HoldsItself tildeRunsRecord tildeRuns := by
    rw [HoldsItself, hrefs]
    intro p hp
    rw [List.mem_cons, List.mem_singleton] at hp
    rcases hp with rfl | rfl
    · rfl
    · rfl
  exact ⟨hrefs, hblocks, hrecord, (scans_lose_nothing tildeRuns).2.2 _ _ hblocks hrecord⟩

end TildeMerge
