import TildeMerge.Proofs.Command.Phases
import TildeMerge.Proofs.Markup.Leftovers
import TildeMerge.Proofs.Passes

namespace TildeMerge

open Markup

variable {t : Text}

/-- A text that no engine changes, whatever the record, and about which none warns. -/
structure Finished (t : Text) : Prop where
  scalars_eq_nil : scalars t = []
  blocks_eq_nil : blocks t = []
  render_result : ∀ (e : Engine) (record : Value), (e.render t record).result = .ok t
  render_warnings : ∀ (e : Engine) (record : Value), (e.render t record).warnings = []

theorem scalarPass_of_leftovers_eq_nil (h : leftovers t = []) (e : Engine) (record : Value) :
    e.scalarPass t record = ⟨[.scalarPass], .ok t⟩ := by
  rw [Engine.scalarPass, scalarPieces_of_leftovers_eq_nil h, splice_plain]
  rfl

theorem blockPass_of_leftovers_eq_nil (h : leftovers t = []) (e : Engine) (record : Value) :
    e.blockPass t record = ⟨[.blockPass], .ok t⟩ := by
  rw [Engine.blockPass, sections_of_leftovers_eq_nil h, renderSections_plain, tail_plain, h]
  rfl

theorem render_of_leftovers_eq_nil (h : leftovers t = []) (e : Engine) (record : Value) :
    e.render t record = ⟨[.scalarPass, .blockPass], .ok t⟩ := by
  have hscalars := congrArg Logged.result (scalarPass_of_leftovers_eq_nil h e record)
  rw [Engine.render, Logged.bind_eq_of_ok _ hscalars, scalarPass_of_leftovers_eq_nil h,
    blockPass_of_leftovers_eq_nil h]
  rfl

theorem finished_of_leftovers_eq_nil (h : leftovers t = []) : Finished t where
  scalars_eq_nil := by rw [scalars, scalarPieces_of_leftovers_eq_nil h, locate_plain]
  blocks_eq_nil := by rw [blocks, sections_of_leftovers_eq_nil h, locateBlocks_plain]
  render_result e record := by rw [render_of_leftovers_eq_nil h]
  render_warnings e record := by
    rw [render_of_leftovers_eq_nil h]
    rfl

namespace Command

variable {a : Args} {input : Bytes} {fs : FileSystem} {outcome : Outcome}

/-- The text that a run has rendered and delivered. -/
def Delivers (a : Args) (input : Bytes) (fs : FileSystem) (outcome : Outcome) (text : Text) : Prop :=
  (∃ value, prepare a input fs.read = .ok (value, text)) ∧
    Ends (run a input fs) (.ok outcome) (deliver a fs text outcome.target).printed
      (deliver a fs text outcome.target).files

theorem exists_delivers (hcheck : a.check = true) (h : (run a input fs).1.result = .ok outcome) :
    ∃ text, Delivers a input fs outcome text ∧ outcome.leftovers = (leftovers text).length := by
  obtain ⟨value, text, hprepare, -, hcount, hends⟩ := exists_of_run_eq_ok h
  refine ⟨text, ⟨⟨value, hprepare⟩, hends⟩, ?_⟩
  rw [hcount, checkedLeftovers, if_pos hcheck]

/-- A text without leftovers is finished: it holds no placeholder and no block, and every render gives
it back without a warning. In particular a run delivers a finished text if its check counts no
leftover. -/
theorem finished_of_check (a : Args) (input : Bytes) (fs : FileSystem) :
    (∀ t, leftovers t = [] → Finished t) ∧
      ∀ outcome, a.check = true → (run a input fs).1.result = .ok outcome → outcome.leftovers = 0 →
        ∃ text, Delivers a input fs outcome text ∧ Finished text := by
  refine ⟨fun t ↦ finished_of_leftovers_eq_nil, fun outcome hcheck h hnone ↦ ?_⟩
  obtain ⟨text, htext, hcount⟩ := exists_delivers hcheck h
  have hnil : leftovers text = [] := List.length_eq_zero_iff.1 (hcount.symm.trans hnone)
  exact ⟨text, htext, finished_of_leftovers_eq_nil hnil⟩

/-- An opener that names no directive, which counts as a leftover nowhere. -/
def bareOpener : Text := ['~', '.', ' ', 'y']

/-- The record that has the bare opener for `x`. -/
def openerRecord : Bytes :=
  [123, 34, 120, 34, 58, 34, 126, 46, 32, 121, 34, 125]

def checksStream : Args :=
  { streamArgs with strict := true, check := true }

theorem finished_of_check_bareOpener :
    leftovers bareOpener = [] ∧ Finished bareOpener ∧
      (run checksStream openerRecord onlyTemplate).1.result = .ok ⟨none, 0⟩ ∧
      (run checksStream openerRecord onlyTemplate).1.printed = [126, 46, 32, 121] ∧
      ∃ text, Delivers checksStream openerRecord onlyTemplate ⟨none, 0⟩ text ∧
        Finished text := by
  have hnil : leftovers bareOpener = [] := by decide
  have hrun : (run checksStream openerRecord onlyTemplate).1.result = .ok ⟨none, 0⟩ := rfl
  have hprinted : (run checksStream openerRecord onlyTemplate).1.printed =
      [126, 46, 32, 121] := rfl
  obtain ⟨hfinished, hdelivers⟩ := finished_of_check checksStream openerRecord onlyTemplate
  exact ⟨hnil, hfinished bareOpener hnil, hrun, hprinted, hdelivers ⟨none, 0⟩ rfl hrun rfl⟩

end Command

end TildeMerge
