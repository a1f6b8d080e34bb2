import TildeMerge.Text.Blank
import Mathlib.Data.List.DropRight

namespace TildeMerge.Text

variable {c : Char}

theorem not_visible_of_isBlank (h : isBlank c) : ¬('!' ≤ c ∧ c ≤ '~') := by
  simp only [isBlank, isWithin, blankRanges, List.any_cons, List.any_nil, Bool.or_false,
    Bool.or_eq_true, Bool.and_eq_true, decide_eq_true_eq] at h
  simp only [Char.le_def, UInt32.le_iff_toNat_le]
  change ¬(33 ≤ c.toNat ∧ c.toNat ≤ 126)
  omega

theorem not_within_of_isBlank (h : isBlank c) {first last : Char} (hfirst : '!' ≤ first)
    (hlast : last ≤ '~') : ¬(first ≤ c ∧ c ≤ last) := fun hc ↦
  not_visible_of_isBlank h ⟨Char.le_trans hfirst hc.1, Char.le_trans hc.2 hlast⟩

theorem beq_of_isBlank (h : isBlank c) {d : Char} (hd : '!' ≤ d ∧ d ≤ '~') : (c == d) = false := by
  rw [beq_eq_false_iff_ne]
  rintro rfl
  exact not_visible_of_isBlank h hd

theorem isLower_of_isBlank (h : isBlank c) : c.isLower = false := by
  have hwithin : ¬('a' ≤ c ∧ c ≤ 'z') := not_within_of_isBlank h (by decide) (by decide)
  have hlower : c.isLower = (decide ('a' ≤ c) && decide (c ≤ 'z')) := rfl
  rw [hlower, ← Bool.decide_and, decide_eq_false hwithin]

theorem isDigit_of_isBlank (h : isBlank c) : c.isDigit = false := by
  have hwithin : ¬('0' ≤ c ∧ c ≤ '9') := not_within_of_isBlank h (by decide) (by decide)
  have hdigit : c.isDigit = (decide ('0' ≤ c) && decide (c ≤ '9')) := rfl
  rw [hdigit, ← Bool.decide_and, decide_eq_false hwithin]

theorem exists_trimStart (t : Text) : ∃ s, t = s ++ t.trimStart ∧ ∀ c ∈ s, isBlank c :=
  ⟨t.takeWhile isBlank, List.takeWhile_append_dropWhile.symm, fun _ h ↦ List.mem_takeWhile_imp h⟩

theorem exists_trimEnd (t : Text) : ∃ w, t = t.trimEnd ++ w ∧ ∀ c ∈ w, isBlank c :=
  ⟨t.rtakeWhile isBlank, List.rdropWhile_append_rtakeWhile.symm, fun _ h ↦ List.mem_rtakeWhile_imp h⟩

theorem exists_trim (t : Text) :
    ∃ s w, t = s ++ (t.trim ++ w) ∧ (∀ c ∈ s, isBlank c) ∧ ∀ c ∈ w, isBlank c := by
  obtain ⟨s, hs, hblank⟩ := exists_trimStart t
  obtain ⟨w, hw, hblank'⟩ := exists_trimEnd t.trimStart
  exact ⟨s, w, hs.trans (congrArg (s ++ ·) hw), hblank, hblank'⟩

end TildeMerge.Text
