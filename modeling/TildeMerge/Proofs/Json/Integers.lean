import TildeMerge.Json.Token
import TildeMerge.Proofs.Results
import Mathlib.Data.List.TakeWhile

namespace TildeMerge.Json

open Number

variable {c : Char} {n : Nat} {t w : Text}

theorem isDigit_of_mem_toDigits (h : c ∈ toDigits n) : c.isDigit = true :=
  Nat.isDigit_of_mem_toDigits (by omega) (by omega) h

theorem ofDigits_toDigits (n : Nat) : ofDigits (toDigits n) = n := by
  have hfold : ofDigits (toDigits n) = Nat.ofDigitChars 10 (Nat.toDigits 10 n) 0 :=
    Nat.ofDigitChars_eq_foldl.symm
  rw [hfold, Nat.ofDigitChars_ten_toDigits]

theorem toDigits_of_lt (h : n < 10) : toDigits n = [Nat.digitChar n] :=
  Nat.toDigits_of_lt_base h

theorem toDigits_of_le (h : 10 ≤ n) :
    toDigits n = toDigits (n / 10) ++ [Nat.digitChar (n % 10)] :=
  Nat.toDigits_of_base_le (by omega) h

theorem head?_toDigits (h : 0 < n) : ∃ c w, toDigits n = c :: w ∧ c ≠ '0' := by
  induction n using Nat.strong_induction_on with
  | _ n ih =>
    by_cases hlt : n < 10
    · refine ⟨Nat.digitChar n, [], toDigits_of_lt hlt, ?_⟩
      rw [ne_eq, Nat.digitChar_eq_zero]
      omega
    · obtain ⟨c, w, hdigits, hc⟩ := ih (n / 10) (by omega) (by omega)
      refine ⟨c, w ++ [Nat.digitChar (n % 10)], ?_, hc⟩
      rw [toDigits_of_le (by omega), hdigits, List.cons_append]

theorem isWhole_toDigits (n : Nat) : isWhole (toDigits n) = true := by
  rcases Nat.eq_zero_or_pos n with rfl | hpos
  · rfl
  · obtain ⟨c, w, hdigits, hc⟩ := head?_toDigits hpos
    rw [hdigits]
    cases w with
    | nil => simp [isWhole, hc]
    | cons d w => simp [isWhole, hc]

theorem readUnsigned_digits (negative : Bool) (h : ∀ c ∈ w, c.isDigit = true) :
    Numeral.readUnsigned negative w = some ⟨negative, w, none, none⟩ := by
  have htake : w.takeWhile Char.isDigit = w := List.takeWhile_eq_self_iff.2 h
  have hdrop : w.dropWhile Char.isDigit = [] := List.dropWhile_eq_nil_iff.2 h
  rw [Numeral.readUnsigned, htake, hdrop]
  rfl

theorem read_toDigits (n : Nat) : Numeral.read (toDigits n) = some ⟨false, toDigits n, none, none⟩ := by
  have hread : Numeral.read (toDigits n) = Numeral.readUnsigned false (toDigits n) := by
    unfold Numeral.read
    split
    · rename_i t hminus
      have hdigit : '-'.isDigit = true := isDigit_of_mem_toDigits (n := n) (by simp [hminus])
      cases hdigit
    · rfl
  rw [hread, readUnsigned_digits false fun _ ↦ isDigit_of_mem_toDigits]

theorem readNumber_of_read {negative : Bool} {z : Int}
    (hread : Numeral.read t = some ⟨negative, toDigits n, none, none⟩)
    (hz : (if negative then -(n : Int) else n) = z) (hzero : (negative && n == 0) = false)
    (h : Value.inIntRange z) : readNumber t = some (.int z) := by
  have hvalid : (isWhole (toDigits n) && (none : Option Text) != some [] &&
      Numeral.hasExponentDigits ⟨negative, toDigits n, none, none⟩) = true := by
    rw [isWhole_toDigits]
    rfl
  have hinteger : (Numeral.isInteger ⟨negative, toDigits n, none, none⟩ && Value.inIntRange z &&
      !(negative && n == 0)) = true := by
    rw [h, hzero]
    rfl
  rw [readNumber, hread, Option.bind_eq_bind, Option.bind_some]
  dsimp only
  rw [hvalid, guard_bind_eq_ite, if_pos rfl, ofDigits_toDigits, hz, hinteger, if_pos rfl]
  rfl

theorem readNumber_toDigits (h : Value.inIntRange n) : readNumber (toDigits n) = some (.int n) :=
  readNumber_of_read (read_toDigits n) rfl rfl h

theorem readNumber_minus (hpos : 0 < n) (h : Value.inIntRange (-n)) :
    readNumber ('-' :: toDigits n) = some (.int (-n)) := by
  have hread : Numeral.read ('-' :: toDigits n) = some ⟨true, toDigits n, none, none⟩ :=
    readUnsigned_digits true fun _ ↦ isDigit_of_mem_toDigits
  have hne : (true && n == 0) = false := by
    simp only [Bool.true_and, beq_eq_false_iff_ne]
    omega
  exact readNumber_of_read hread rfl hne h

theorem readNumber_intText {n : Int} (h : Value.inIntRange n) :
    readNumber (intText n) = some (.int n) := by
  cases n with
  | ofNat n => exact readNumber_toDigits h
  | negSucc n => exact readNumber_minus (Nat.succ_pos n) h

theorem le_foldl_digits (n : Nat) (t : Text) :
    n ≤ t.foldl (fun n c ↦ 10 * n + digitValue c) n := by
  induction t generalizing n with
  | nil => exact le_rfl
  | cons c t ih =>
    have hlonger := ih (10 * n + digitValue c)
    rw [List.foldl_cons]
    omega

theorem appendDigits_of_lt (h : t.foldl (fun n c ↦ 10 * n + digitValue c) n < Nat.pow 2 64) :
    appendDigits n t = (t.foldl (fun n c ↦ 10 * n + digitValue c) n, []) := by
  induction t generalizing n with
  | nil => rfl
  | cons c t ih =>
    rw [List.foldl_cons] at h ⊢
    have hlonger : 10 * n + digitValue c < Nat.pow 2 64 := (le_foldl_digits _ t).trans_lt h
    rw [appendDigits, if_pos hlonger, ih h]

/-- No digit is lost as long as 64 bits hold them all. -/
theorem shortDecimal_eq_toDecimal {m : Numeral} (h : m.toDecimal.digits < Nat.pow 2 64) :
    shortDecimal m = m.toDecimal := by
  rw [Numeral.toDecimal, ofDigits, List.foldl_append] at h
  have hwhole := appendDigits_of_lt ((le_foldl_digits _ (m.fraction.getD [])).trans_lt h)
  rw [shortDecimal, hwhole]
  dsimp only
  rw [appendDigits_of_lt h, Numeral.toDecimal, ofDigits, List.foldl_append]
  rw [List.length_nil, Int.natCast_zero, Int.add_zero, Int.sub_zero]

end TildeMerge.Json
