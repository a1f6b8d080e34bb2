import TildeMerge.Proofs.Markup.Pieces
import Mathlib.Data.List.Sort

namespace TildeMerge.Markup

variable {c : Char} {t : Text} {n : Nat} {ps : List Piece} {p q : Placeholder}
variable {refs refs' : List Placeholder}

/-- An ASCII letter or digit, or the underscore. -/
def InWordClass (c : Char) : Prop :=
  'A' ≤ c ∧ c ≤ 'Z' ∨ 'a' ≤ c ∧ c ≤ 'z' ∨ '0' ≤ c ∧ c ≤ '9' ∨ c = '_'

def InPathClass (c : Char) : Prop :=
  InWordClass c ∨ c = '.'

theorem isWordChar_iff : isWordChar c = true ↔ InWordClass c := by
  have hupper : c.isUpper = decide ('A' ≤ c ∧ c ≤ 'Z') := rfl
  have hlower : c.isLower = (decide ('a' ≤ c) && decide (c ≤ 'z')) := rfl
  have hdigit : c.isDigit = (decide ('0' ≤ c) && decide (c ≤ '9')) := rfl
  have hclass : isWordChar c = (c.isUpper || c.isLower || c.isDigit || c == '_') := rfl
  rw [hclass, hupper, hlower, hdigit]
  simp only [InWordClass, Bool.or_eq_true, Bool.and_eq_true, decide_eq_true_iff, beq_iff_eq, or_assoc]

theorem isPathChar_iff : isPathChar c = true ↔ InPathClass c := by
  rw [isPathChar, Bool.or_eq_true, isWordChar_iff, beq_iff_eq, InPathClass]

theorem isRun_iff : IsRun t ↔ ∀ c ∈ t, InPathClass c := by
  simp only [IsRun, isPathChar_iff]

theorem endsRun_iff : EndsRun t ↔ ∀ c ∈ t.head?, ¬ InPathClass c := by
  simp only [EndsRun, ← isPathChar_iff, Bool.not_eq_true]

/-- Placeholders in the order of the text, none of which begins inside another one. -/
def InOrder (refs : List Placeholder) : Prop :=
  refs.Pairwise fun p q ↦ p.start < q.start ∧ p.stop ≤ q.start

theorem InOrder.eq_of_start_eq (h : InOrder refs) (hp : p ∈ refs) (hq : q ∈ refs)
    (hstart : p.start = q.start) : p = q := by
  have hsorted : (refs.map Placeholder.start).Pairwise (· < ·) :=
    List.pairwise_map.2 (h.imp And.left)
  exact List.inj_on_of_nodup_map hsorted.nodup hp hq hstart

theorem InOrder.eq_of_mem_iff (h : InOrder refs) (h' : InOrder refs')
    (hmem : ∀ p, p ∈ refs ↔ p ∈ refs') : refs = refs' := by
  have hirrefl : Std.Irrefl fun p q : Placeholder ↦ p.start < q.start := ⟨fun p ↦ Nat.lt_irrefl _⟩
  have hantisymm : Std.Antisymm fun p q : Placeholder ↦ p.start < q.start :=
    ⟨fun p q hpq hqp ↦ absurd hqp (Nat.lt_asymm hpq)⟩
  exact List.Pairwise.eq_of_mem_iff (h.imp And.left) (h'.imp And.left) hmem

theorem stop_eq_of_mem_locate (h : p ∈ locate n ps) : p.stop = p.start + 1 + p.path.size := by
  induction ps generalizing n with
  | nil => cases h
  | cons piece ps ih =>
    cases piece with
    | plain c => exact ih h
    | placeholder path =>
      rcases List.mem_cons.1 h with rfl | h
      · rfl
      · exact ih h

theorem le_start_of_mem_locate (h : p ∈ locate n ps) : n ≤ p.start := by
  induction ps generalizing n with
  | nil => cases h
  | cons piece ps ih =>
    cases piece with
    | plain c => exact (Nat.le_add_right _ _).trans (ih h)
    | placeholder path =>
      rcases List.mem_cons.1 h with rfl | h
      · exact le_rfl
      · have hle := ih h
        omega

theorem inOrder_locate (n : Nat) (ps : List Piece) : InOrder (locate n ps) := by
  induction ps generalizing n with
  | nil => exact .nil
  | cons piece ps ih =>
    cases piece with
    | plain c => exact ih _
    | placeholder path =>
      refine .cons ?_ (ih _)
      intro q hq
      have hle := le_start_of_mem_locate hq
      exact ⟨by dsimp only; omega, hle⟩

theorem locate_append {marker : Char} (hm : marker.utf8Size = 1) (offset : Nat) (ps qs : List Piece) :
    locate offset (ps ++ qs) =
      locate offset ps ++ locate (offset + Text.size (ps.flatMap (Piece.text marker))) qs := by
  induction ps generalizing offset with
  | nil => rfl
  | cons piece ps ih =>
    rw [List.flatMap_cons, Text.size_append, ← Nat.add_assoc]
    cases piece with
    | plain c => exact ih (offset + c.utf8Size)
    | placeholder path =>
      have hsize : Text.size (Piece.text marker (.placeholder path)) = 1 + path.size := by
        rw [Piece.text, Text.size_cons, hm]
      rw [hsize, ← Nat.add_assoc, List.cons_append, locate, locate, ih]
      rfl

end TildeMerge.Markup
