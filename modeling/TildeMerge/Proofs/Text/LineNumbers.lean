import TildeMerge.Proofs.Text.Offsets

namespace TildeMerge.Text

variable {s t : Text} {n k : Nat}

/-- The line on which a byte offset lies, counted from one. -/
def lineAt (t : Text) (n : Nat) : Nat :=
  1 + (t.takeBytes n).count '\n'

theorem lineAt_size (s t : Text) : (s ++ t).lineAt s.size = 1 + s.count '\n' := by
  rw [lineAt, takeBytes_size_append]

theorem takeBytes_isPrefix (t : Text) (h : n ≤ k) : t.takeBytes n <+: t.takeBytes k := by
  induction t generalizing n k with
  | nil => exact List.prefix_rfl
  | cons c t ih =>
    rw [takeBytes, takeBytes]
    by_cases hn : n = 0
    · rw [if_pos hn]
      exact List.nil_prefix
    · have hk : k ≠ 0 := by omega
      rw [if_neg hn, if_neg hk, List.cons_prefix_cons]
      exact ⟨rfl, ih (Nat.sub_le_sub_right h _)⟩

theorem lineAt_le (t : Text) (h : n ≤ k) : t.lineAt n ≤ t.lineAt k :=
  Nat.add_le_add_left ((takeBytes_isPrefix t h).sublist.count_le _) 1

theorem splitOn_append_of_notMem (h : '\n' ∉ s) (t : Text) :
    (s ++ t).splitOn '\n' = (t.splitOn '\n').modifyHead (s ++ ·) := by
  induction s with
  | nil =>
    cases ht : t.splitOn '\n' with
    | nil => exact absurd ht (List.splitOn_ne_nil _ t)
    | cons line lines => rw [List.nil_append, ht]; rfl
  | cons c s ih =>
    rw [List.mem_cons, not_or] at h
    have hc : (c == '\n') = false := beq_false_of_ne (Ne.symm h.1)
    rw [List.cons_append, List.splitOn_cons_eq_if_modifyHead, hc, ih h.2]
    cases t.splitOn '\n' <;> rfl

theorem exists_line (u t : Text) (h : '\n' ∉ s) :
    ∃ line, ((u ++ (s ++ t)).splitOn '\n')[u.count '\n']? = some line ∧ s <:+: line := by
  induction u with
  | nil =>
    rw [List.nil_append, splitOn_append_of_notMem h]
    cases ht : t.splitOn '\n' with
    | nil => exact absurd ht (List.splitOn_ne_nil _ t)
    | cons line lines => exact ⟨s ++ line, rfl, (List.prefix_append s line).isInfix⟩
  | cons c u ih =>
    obtain ⟨line, hline, hs⟩ := ih
    rw [List.cons_append, List.splitOn_cons_eq_if_modifyHead]
    by_cases hc : c = '\n'
    · rw [if_pos (beq_iff_eq.2 hc), hc, List.count_cons_self, List.getElem?_cons_succ]
      exact ⟨line, hline, hs⟩
    · rw [if_neg (mt beq_iff_eq.1 hc), List.count_cons_of_ne hc, List.getElem?_modifyHead]
      split
      · rw [hline]
        exact ⟨c :: line, rfl, hs.trans (List.suffix_cons c line).isInfix⟩
      · exact ⟨line, hline, hs⟩

end TildeMerge.Text
