import TildeMerge.Text.Basic
import Mathlib.Data.List.TakeWhile

namespace TildeMerge.Text

variable {s t : Text}

theorem dropWhile_break (h : '\n' ∉ s) (t : Text) :
    (s ++ '\n' :: t).dropWhile (· != '\n') = '\n' :: t := by
  rw [List.dropWhile_append_of_pos]
  · rfl
  · intro c hc
    simpa using ne_of_mem_of_not_mem hc h

theorem dropWhile_eq_nil_of_notMem (h : '\n' ∉ s) : s.dropWhile (· != '\n') = [] := by
  rw [List.dropWhile_eq_nil_iff]
  intro c hc
  simpa using ne_of_mem_of_not_mem hc h

theorem firstLine_append (h : '\n' ∉ s) (t : Text) : firstLine (s ++ '\n' :: t) = s := by
  rw [firstLine, List.takeWhile_append_of_pos]
  · simp
  · intro c hc
    simpa using ne_of_mem_of_not_mem hc h

theorem firstLine_of_notMem (h : '\n' ∉ s) : firstLine s = s := by
  rw [firstLine, List.takeWhile_eq_self_iff]
  intro c hc
  simpa using ne_of_mem_of_not_mem hc h

theorem afterFirstBreak_append (h : '\n' ∉ s) (t : Text) :
    afterFirstBreak (s ++ '\n' :: t) = some t := by
  rw [afterFirstBreak, dropWhile_break h]

theorem afterFirstBreak_of_notMem (h : '\n' ∉ s) : afterFirstBreak s = none := by
  rw [afterFirstBreak, dropWhile_eq_nil_of_notMem h]

theorem exists_last_break (h : '\n' ∈ t) : ∃ s u, t = s ++ '\n' :: u ∧ '\n' ∉ u := by
  obtain ⟨u, s, ht, hu⟩ := List.eq_append_cons_of_mem (List.mem_reverse.2 h)
  refine ⟨s.reverse, u.reverse, ?_, by simpa using hu⟩
  rw [← List.reverse_reverse t, ht]
  simp

theorem beforeLastBreak_append (s : Text) (h : '\n' ∉ t) :
    beforeLastBreak (s ++ '\n' :: t) = some s := by
  have hr : (s ++ '\n' :: t).reverse = t.reverse ++ '\n' :: s.reverse := by simp
  have ht : '\n' ∉ t.reverse := by simpa using h
  rw [beforeLastBreak, hr, dropWhile_break ht]
  simp

theorem beforeLastBreak_append_of_notMem (s : Text) (h : '\n' ∉ t) :
    beforeLastBreak (s ++ t) = beforeLastBreak s := by
  rw [beforeLastBreak, beforeLastBreak, List.reverse_append, List.dropWhile_append_of_pos]
  intro c hc
  simpa using ne_of_mem_of_not_mem (List.mem_reverse.1 hc) h

end TildeMerge.Text
