import TildeMerge.Render.Engine

namespace TildeMerge

open Markup

variable {α β : Type}

section Splice

variable (resolve : Text → Logged Text)

theorem splice_append (ps qs : List Piece) :
    splice resolve (ps ++ qs) =
      splice resolve ps >>= fun t ↦ (t ++ ·) <$> splice resolve qs := by
  induction ps with
  | nil => simp [splice]
  | cons piece ps ih =>
    cases piece with
    | plain c =>
      simp only [List.cons_append, splice, ih, ← bind_pure_comp, bind_assoc, pure_bind]
    | placeholder path =>
      simp only [List.cons_append, splice, ih, ← bind_pure_comp, bind_assoc, pure_bind,
        List.append_assoc]

theorem splice_plain (t : Text) : splice resolve (t.map .plain) = pure t := by
  induction t with
  | nil => rfl
  | cons c t ih => simp [splice, ih]

theorem splice_plain_append (t : Text) (ps : List Piece) :
    splice resolve (t.map .plain ++ ps) = (t ++ ·) <$> splice resolve ps := by
  simp [splice_append, splice_plain]

theorem splice_flatMap_result {pieces : α → List Piece} {value : α → Except Error β}
    {print : β → Text} {l : List α}
    (h : ∀ a ∈ l, (splice resolve (pieces a)).result = print <$> value a) :
    (splice resolve (l.flatMap pieces)).result = List.flatMap print <$> l.mapM value := by
  induction l with
  | nil => rfl
  | cons a l ih =>
    rw [List.forall_mem_cons] at h
    rw [List.flatMap_cons, splice_append, Logged.bind_result, h.1, List.mapM_cons]
    simp only [Logged.map_result, ih h.2]
    cases value a with
    | error e => rfl
    | ok b => cases l.mapM value <;> rfl

end Splice

section Sections

variable (e : Engine) (record : Value)

theorem renderSections_append (ss ts : List Section) :
    e.renderSections record (ss ++ ts) =
      e.renderSections record ss >>= fun t ↦ (t ++ ·) <$> e.renderSections record ts := by
  induction ss with
  | nil => simp [Engine.renderSections]
  | cons piece ss ih =>
    cases piece with
    | plain c =>
      simp only [List.cons_append, Engine.renderSections, ih, ← bind_pure_comp, bind_assoc,
        pure_bind]
    | block region =>
      simp only [List.cons_append, Engine.renderSections, ih, ← bind_pure_comp, bind_assoc,
        pure_bind, List.append_assoc]

theorem renderSections_plain (t : Text) : e.renderSections record (t.map .plain) = pure t := by
  induction t with
  | nil => rfl
  | cons c t ih => simp [Engine.renderSections, ih]

theorem renderSections_flatMap_result {secs : α → List Section} {value : α → Except Error Text}
    {l : List α} (h : ∀ a ∈ l, (e.renderSections record (secs a)).result = value a) :
    (e.renderSections record (l.flatMap secs)).result = List.flatten <$> l.mapM value := by
  induction l with
  | nil => rfl
  | cons a l ih =>
    rw [List.forall_mem_cons] at h
    rw [List.flatMap_cons, renderSections_append, Logged.bind_result, h.1, List.mapM_cons]
    simp only [Logged.map_result, ih h.2]
    cases value a with
    | error e => rfl
    | ok b => cases l.mapM value <;> rfl

theorem reportUnclosed_result (ls : List Leftover) :
    (Engine.reportUnclosed ls).result = .ok () := by
  induction ls with
  | nil => rfl
  | cons l ls ih =>
    rw [Engine.reportUnclosed]
    cases l.isUnclosed
    · exact ih
    · exact ih

theorem reportUnclosed_log (ls : List Leftover) : (Engine.reportUnclosed ls).log =
    (ls.filter Leftover.isUnclosed).map fun l ↦ .unclosed l.token := by
  induction ls with
  | nil => rfl
  | cons l ls ih =>
    rw [Engine.reportUnclosed, List.filter_cons]
    split
    · rw [List.map_cons, ← ih]
      rfl
    · exact ih

theorem blockPass_result (t : Text) :
    (e.blockPass t record).result = (e.renderSections record (sections t)).result := by
  simp only [Engine.blockPass, Logged.bind_result, Logged.tell_result, reportUnclosed_result]
  cases (e.renderSections record (sections t)).result <;> rfl

end Sections

end TildeMerge
