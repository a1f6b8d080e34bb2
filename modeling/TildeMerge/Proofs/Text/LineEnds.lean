import TildeMerge.Proofs.Text.Lines
import TildeMerge.Proofs.Text.Offsets

namespace TildeMerge.Text

variable {c : Char} {s t : Text}

def crlf (t : Text) : Text :=
  t.flatMap fun c ↦ if c = '\n' then ['\r', '\n'] else [c]

theorem crlf_break (t : Text) : crlf ('\n' :: t) = '\r' :: '\n' :: crlf t := rfl

theorem crlf_cons (h : c ≠ '\n') (t : Text) : crlf (c :: t) = c :: crlf t := by
  rw [crlf, List.flatMap_cons, if_neg h]
  rfl

theorem crlf_append (s t : Text) : crlf (s ++ t) = crlf s ++ crlf t :=
  List.flatMap_append

theorem crlf_of_notMem (h : '\n' ∉ t) : crlf t = t := by
  induction t with
  | nil => rfl
  | cons c t ih =>
    rw [List.mem_cons, not_or] at h
    rw [crlf_cons (Ne.symm h.1), ih h.2]

@[elab_as_elim]
theorem lines_induction {motive : Text → Prop} (line : ∀ s, '\n' ∉ s → motive s)
    (below : ∀ s t, '\n' ∉ s → motive t → motive (s ++ '\n' :: t)) (t : Text) : motive t := by
  induction hn : t.length using Nat.strong_induction_on generalizing t with
  | _ n ih =>
    subst hn
    by_cases h : '\n' ∈ t
    · obtain ⟨s, u, rfl, hs⟩ := List.eq_append_cons_of_mem h
      have hlt : u.length < (s ++ '\n' :: u).length := by
        rw [List.length_append, List.length_cons]
        omega
      exact below s u hs (ih u.length hlt u rfl)
    · exact line t h

theorem firstLine_crlf (h : '\n' ∈ t) : firstLine (crlf t) = firstLine t ++ ['\r'] := by
  obtain ⟨s, u, rfl, hs⟩ := List.eq_append_cons_of_mem h
  have hr : '\n' ∉ s ++ ['\r'] := by
    rw [List.mem_append, List.mem_singleton]
    exact not_or.2 ⟨hs, by decide⟩
  have hcrlf : crlf (s ++ '\n' :: u) = s ++ ['\r'] ++ '\n' :: crlf u := by
    rw [crlf_append, crlf_of_notMem hs, crlf_break, List.append_assoc]
    rfl
  rw [hcrlf, firstLine_append hr, firstLine_append hs]

theorem crlf_flatten (ts : List Text) : crlf ts.flatten = (ts.map crlf).flatten := by
  induction ts with
  | nil => rfl
  | cons t ts ih => rw [List.flatten_cons, crlf_append, ih, List.map_cons, List.flatten_cons]

theorem crlf_alternate (gs ts : List Text) :
    crlf (alternate gs ts) = alternate (gs.map crlf) (ts.map crlf) := by
  induction gs generalizing ts with
  | nil => cases ts <;> exact crlf_flatten _
  | cons g gs ih =>
    cases ts with
    | nil => exact crlf_flatten _
    | cons s ts =>
      rw [alternate, crlf_append, crlf_append, ih]
      rfl

end TildeMerge.Text
