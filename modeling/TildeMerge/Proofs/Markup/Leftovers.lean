import TildeMerge.Markup.Leftover
import TildeMerge.Proofs.Markup.Tails

namespace TildeMerge.Markup

variable {t run : Text} {line : Nat} {rest : List (Char × Text)}

theorem isMarkup_of_startsWord (h : run.startsWord = true) : isMarkup run = true := by
  cases run with
  | nil => cases h
  | cons c run =>
    by_cases hdot : c = '.'
    · subst hdot
      cases h
    · simpa [isMarkup, hdot] using h

theorem isMarkup_of_closes (h : closes '~' run = true) : isMarkup run = true := by
  obtain ⟨after, hafter⟩ : closer <+: run := by simpa [closes] using h
  rw [← hafter]
  rfl

theorem not_isMarkup_of_leftoversFrom_eq_nil (h : leftoversFrom line rest = [])
    (hrun : ('~', run) ∈ rest) : isMarkup run = false := by
  induction rest generalizing line with
  | nil => cases hrun
  | cons p rest ih =>
    obtain ⟨c, w⟩ := p
    rw [leftoversFrom] at h
    split at h
    · rename_i hbreak
      rcases List.mem_cons.1 hrun with heq | hrest
      · obtain ⟨rfl, -⟩ := Prod.mk.inj heq
        cases hbreak
      · exact ih h hrest
    · split at h
      · cases h
      · rename_i hplain
        rcases List.mem_cons.1 hrun with heq | hrest
        · obtain ⟨rfl, rfl⟩ := Prod.mk.inj heq
          simpa using hplain
        · exact ih h hrest

theorem exists_closes_of_toCloser {p : Text × Text} (h : toCloser t = some p) :
    ∃ run, ('~', run) ∈ (runs t).rest ∧ closes '~' run = true := by
  induction t generalizing p with
  | nil => cases h
  | cons c t ih =>
    rw [toCloser] at h
    split at h
    · rename_i hcl
      obtain rfl : c = '~' := by simpa using (Bool.and_eq_true_iff.1 hcl).1
      refine ⟨(runs t).first, ?_, (closes_first '~' t).trans hcl⟩
      rw [runs_cons_break isPathChar_tilde]
      exact List.mem_cons_self
    · obtain ⟨q, hq, -⟩ := Option.map_eq_some_iff.1 h
      obtain ⟨run, hrun, hcl⟩ := ih hq
      refine ⟨run, ?_, hcl⟩
      cases hc : isPathChar c
      · rw [runs_cons_break hc]
        exact List.mem_cons_of_mem _ hrun
      · rw [runs_cons_path hc]
        exact hrun

theorem toCloser_of_leftovers_eq_nil (h : leftovers t = []) : toCloser t = none := by
  cases hclose : toCloser t with
  | none => rfl
  | some p =>
    obtain ⟨run, hrun, hcl⟩ := exists_closes_of_toCloser hclose
    have hno := not_isMarkup_of_leftoversFrom_eq_nil h hrun
    rw [isMarkup_of_closes hcl] at hno
    cases hno

theorem sections_of_leftovers_eq_nil (h : leftovers t = []) : sections t = t.map .plain :=
  sections_of_toCloser_eq_none (toCloser_of_leftovers_eq_nil h)

theorem scalarPieces_of_leftovers_eq_nil (h : leftovers t = []) :
    scalarPieces t = t.map .plain := by
  have hrun : ∀ p ∈ (runs t).rest, (p.1 == '~' && p.2.startsWord) = false := by
    rintro ⟨c, run⟩ hp
    by_cases hc : c = '~'
    · subst hc
      have hno := not_isMarkup_of_leftoversFrom_eq_nil h hp
      have hword : run.startsWord = false := by
        rw [Bool.eq_false_iff]
        intro hw
        rw [isMarkup_of_startsWord hw] at hno
        cases hno
      simp [hword]
    · simp [hc]
  have hrest : ((runs t).rest.flatMap fun p ↦
      if p.1 == '~' && p.2.startsWord then [Piece.placeholder p.2] else (p.1 :: p.2).map .plain) =
      ((runs t).rest.flatMap fun p ↦ p.1 :: p.2).map .plain := by
    rw [List.map_flatMap]
    refine List.flatMap_congr fun p hp ↦ ?_
    rw [hrun p hp]
    rfl
  calc scalarPieces t = (runs t).first.map .plain ++
        ((runs t).rest.flatMap fun p ↦ p.1 :: p.2).map .plain := by
        rw [← hrest]
        rfl
    _ = (runs t).text.map .plain := by rw [Runs.text, List.map_append]
    _ = t.map .plain := by rw [text_runs]

theorem locate_plain (n : Nat) (t : Text) : locate n (t.map .plain) = [] := by
  induction t generalizing n with
  | nil => rfl
  | cons c t ih => exact ih _

theorem locateBlocks_plain (n : Nat) (t : Text) : locateBlocks n (t.map .plain) = [] := by
  induction t generalizing n with
  | nil => rfl
  | cons c t ih => exact ih _

end TildeMerge.Markup
