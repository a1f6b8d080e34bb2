import TildeMerge.Proofs.Markup.Tails
import TildeMerge.Proofs.Passes
import TildeMerge.Proofs.Results

namespace TildeMerge

open Markup

variable {e : Engine} {record : Value} {s t u v w x : Text}

theorem render_eq_ok : (e.render t record).result = .ok x ↔
    ∃ u, (e.scalarPass t record).result = .ok u ∧ (e.blockPass u record).result = .ok x := by
  rw [Engine.render, Logged.bind_result, bind_eq_ok]

theorem blockPass_eq_of_blocks_eq_nil (h : blocks t = []) : e.blockPass t record = do
    Logged.tell .blockPass
    Engine.reportUnclosed (leftovers t)
    return t := by
  rw [Engine.blockPass, sections_of_blocks_eq_nil h, renderSections_plain, tail_plain]
  rfl

theorem blockPass_of_blocks_eq_nil (h : blocks t = []) : (e.blockPass t record).result = .ok t := by
  rw [blockPass_result, sections_of_blocks_eq_nil h, renderSections_plain]
  rfl

theorem endsRun_break (t : Text) : EndsRun ('\n' :: t) :=
  endsRun_cons.2 isPathChar_newline

theorem above_eq_ok {c : Char} {upper lower : Logged Text} :
    (upper >>= fun u ↦ (u ++ ·) <$> ((c :: ·) <$> lower)).result = .ok w ↔
      ∃ u v, upper.result = .ok u ∧ lower.result = .ok v ∧ w = u ++ c :: v := by
  rw [Logged.bind_result, bind_eq_ok]
  constructor
  · rintro ⟨u, hu, hrest⟩
    obtain ⟨r, hr, rfl⟩ := map_eq_ok.1 hrest
    obtain ⟨v, hv, rfl⟩ := map_eq_ok.1 hr
    exact ⟨u, v, hu, hv, rfl⟩
  · rintro ⟨u, v, hu, hv, rfl⟩
    refine ⟨u, hu, map_eq_ok.2 ⟨c :: v, ?_, rfl⟩⟩
    exact map_eq_ok.2 ⟨v, hv, rfl⟩

theorem scalarPass_lines : (e.scalarPass (s ++ '\n' :: t) record).result = .ok w ↔
    ∃ u v, (e.scalarPass s record).result = .ok u ∧ (e.scalarPass t record).result = .ok v ∧
      w = u ++ '\n' :: v := by
  have hne : '\n' ≠ '~' := by decide
  have hpieces : scalarPieces (s ++ '\n' :: t) =
      scalarPieces s ++ .plain '\n' :: scalarPieces t := by
    rw [scalarPieces_append s (endsRun_break t), scalarPieces_cons hne]
  have hpass (r : Text) : (e.scalarPass r record).result =
      (splice (resolveIn record e.options.missing) (scalarPieces r)).result := by
    rw [Engine.scalarPass, Logged.bind_result]
    rfl
  rw [hpass, hpass, hpass, hpieces, splice_append]
  exact above_eq_ok

theorem blockPass_lines (h : ¬ opener <:+: tail (sections u)) :
    (e.blockPass (u ++ '\n' :: v) record).result = .ok x ↔
      ∃ y z, (e.blockPass u record).result = .ok y ∧ (e.blockPass v record).result = .ok z ∧
        x = y ++ '\n' :: z := by
  have hsections : sections (u ++ '\n' :: v) = sections u ++ .plain '\n' :: sections v := by
    rw [sections_append h (endsRun_break v), sections_plain rfl]
  rw [blockPass_result, blockPass_result, blockPass_result, hsections, renderSections_append]
  exact above_eq_ok

/-- If the first template leaves no opener behind its last block, then two templates one above the
other have a text exactly if both of them have one, and it is the one text above the other. -/
theorem render_lines
    (h : ∀ u, (e.scalarPass s record).result = .ok u → ¬ opener <:+: tail (sections u)) (x : Text) :
    (e.render (s ++ '\n' :: t) record).result = .ok x ↔
      ∃ y z, (e.render s record).result = .ok y ∧ (e.render t record).result = .ok z ∧
        x = y ++ '\n' :: z := by
  constructor
  · intro hx
    obtain ⟨w, hw, hx⟩ := render_eq_ok.1 hx
    obtain ⟨u, v, hu, hv, rfl⟩ := scalarPass_lines.1 hw
    obtain ⟨y, z, hy, hz, rfl⟩ := (blockPass_lines (h u hu)).1 hx
    exact ⟨y, z, render_eq_ok.2 ⟨u, hu, hy⟩, render_eq_ok.2 ⟨v, hv, hz⟩, rfl⟩
  · rintro ⟨y, z, hy, hz, rfl⟩
    obtain ⟨u, hu, hy⟩ := render_eq_ok.1 hy
    obtain ⟨v, hv, hz⟩ := render_eq_ok.1 hz
    have hw := scalarPass_lines.2 ⟨u, v, hu, hv, rfl⟩
    exact render_eq_ok.2 ⟨_, hw, (blockPass_lines (h u hu)).2 ⟨y, z, hy, hz, rfl⟩⟩

def blockThenTilde : Text :=
  ['~', '.', 'f', 'o', 'r', ' ', '.', 'i', '\n', '.', 'q', '\n', '~', '.', 'e', 'n', 'd', '~']

def dotThenCloser : Text :=
  ['.', '~', 'a', '~', '.', 'e', 'n', 'd']

def letterAndItem : Value :=
  .record [(['a'], .text ['A']), (['i'], .list [.record [(['q'], .int 1)]])]

theorem render_lines_blockThenTilde :
    (({} : Engine).scalarPass blockThenTilde letterAndItem).result = .ok blockThenTilde ∧
      tail (sections blockThenTilde) = ['~'] ∧
      (({} : Engine).render (blockThenTilde ++ '\n' :: dotThenCloser) letterAndItem).result =
        .ok ['1', '\n', '~', '\n', '.', 'A', '~', '.', 'e', 'n', 'd'] := by
  have hpass : (({} : Engine).scalarPass blockThenTilde letterAndItem).result =
      .ok blockThenTilde := rfl
  have htail : tail (sections blockThenTilde) = ['~'] := by decide
  refine ⟨hpass, htail, (render_lines (fun u hu ↦ ?_) _).2 ⟨['1', '\n', '~'],
    ['.', 'A', '~', '.', 'e', 'n', 'd'], ?_, rfl, rfl⟩⟩
  · rw [hpass] at hu
    obtain rfl := Except.ok.inj hu
    rw [htail]
    decide
  · decide

end TildeMerge
