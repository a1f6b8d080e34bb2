import TildeMerge.Markup.Block
import Mathlib.Data.List.Basic

namespace TildeMerge.Markup

variable {c : Char} {s t p w : Text}

/-- The text does not continue a run of path characters that stands before it. -/
def EndsRun (t : Text) : Prop :=
  ∀ c ∈ t.head?, isPathChar c = false

/-- A text of path characters only. -/
def IsRun (t : Text) : Prop :=
  ∀ c ∈ t, isPathChar c = true

instance : DecidablePred EndsRun := fun t ↦
  Option.decidableForallMem t.head?

instance : DecidablePred IsRun := fun t ↦
  List.decidableBAll _ t

theorem endsRun_nil : EndsRun [] := by
  intro c hc
  cases hc

theorem endsRun_cons : EndsRun (c :: t) ↔ isPathChar c = false := by
  simp [EndsRun]

theorem EndsRun.append (hs : EndsRun s) (ht : EndsRun t) : EndsRun (s ++ t) := by
  cases s with
  | nil => exact ht
  | cons c s => exact endsRun_cons.2 (endsRun_cons.1 hs)

theorem EndsRun.of_append (h : EndsRun (s ++ t)) : EndsRun s := by
  cases s with
  | nil => exact endsRun_nil
  | cons c s => exact endsRun_cons.2 (endsRun_cons.1 h)

theorem EndsRun.of_head?_eq (h : s.head? = t.head?) (ht : EndsRun t) : EndsRun s := by
  intro c hc
  exact ht c (h ▸ hc)

theorem runs_cons_path (h : isPathChar c = true) :
    runs (c :: t) = ⟨c :: (runs t).first, (runs t).rest⟩ := by
  simp [runs, h]

theorem runs_cons_break (h : isPathChar c = false) :
    runs (c :: t) = ⟨[], (c, (runs t).first) :: (runs t).rest⟩ := by
  simp [runs, h]

theorem first_eq_nil (h : EndsRun t) : (runs t).first = [] := by
  cases t with
  | nil => rfl
  | cons c t => rw [runs_cons_break (endsRun_cons.1 h)]

theorem runs_append (s : Text) (h : EndsRun t) :
    runs (s ++ t) = ⟨(runs s).first, (runs s).rest ++ (runs t).rest⟩ := by
  induction s with
  | nil =>
    calc runs t = ⟨(runs t).first, (runs t).rest⟩ := rfl
      _ = ⟨[], (runs t).rest⟩ := by rw [first_eq_nil h]
  | cons c s ih =>
    cases hc : isPathChar c
    · rw [List.cons_append, runs_cons_break hc, runs_cons_break hc, ih, List.cons_append]
    · rw [List.cons_append, runs_cons_path hc, runs_cons_path hc, ih]

theorem runs_run_append (hw : IsRun w) (t : Text) :
    runs (w ++ t) = ⟨w ++ (runs t).first, (runs t).rest⟩ := by
  induction w with
  | nil => rfl
  | cons c w ih =>
    have hc : isPathChar c = true := hw c List.mem_cons_self
    have hw' : IsRun w := fun d hd ↦ hw d (List.mem_cons_of_mem c hd)
    rw [List.cons_append, runs_cons_path hc, ih hw', List.cons_append]

theorem isRun_first (t : Text) : IsRun (runs t).first := by
  induction t with
  | nil => exact List.forall_mem_nil _
  | cons c t ih =>
    cases hc : isPathChar c
    · rw [runs_cons_break hc]
      exact List.forall_mem_nil _
    · rw [runs_cons_path hc]
      exact List.forall_mem_cons.2 ⟨hc, ih⟩

theorem exists_endsRun (t : Text) : ∃ u, t = (runs t).first ++ u ∧ EndsRun u := by
  induction t with
  | nil => exact ⟨[], rfl, endsRun_nil⟩
  | cons c t ih =>
    cases hc : isPathChar c
    · rw [runs_cons_break hc]
      exact ⟨c :: t, rfl, endsRun_cons.2 hc⟩
    · obtain ⟨u, ht, hu⟩ := ih
      rw [runs_cons_path hc]
      exact ⟨u, congrArg (c :: ·) ht, hu⟩

theorem startsWord_first (t : Text) : (runs t).first.startsWord = t.startsWord := by
  cases t with
  | nil => rfl
  | cons c t =>
    cases hc : isPathChar c
    · have hw : isWordChar c = false := (Bool.or_eq_false_iff.1 hc).1
      rw [runs_cons_break hc]
      exact hw.symm
    · rw [runs_cons_path hc]
      rfl

theorem isPathChar_tilde : isPathChar '~' = false := by decide

theorem isPathChar_dot : isPathChar '.' = true := by decide

theorem isPathChar_newline : isPathChar '\n' = false := by decide

theorem IsRun.tilde_notMem (h : IsRun w) : '~' ∉ w := by
  intro hw
  exact absurd (h _ hw) (by decide)

theorem IsRun.newline_notMem (h : IsRun w) : '\n' ∉ w := by
  intro hw
  exact absurd (h _ hw) (by decide)

theorem scalarPieces_cons (h : c ≠ '~') : scalarPieces (c :: t) = .plain c :: scalarPieces t := by
  cases hc : isPathChar c
  · simp [scalarPieces, runs_cons_break hc, h]
  · simp [scalarPieces, runs_cons_path hc]

theorem scalarPieces_tilde (h : t.startsWord = false) :
    scalarPieces ('~' :: t) = .plain '~' :: scalarPieces t := by
  simp [scalarPieces, runs_cons_break isPathChar_tilde, startsWord_first, h]

theorem scalarPieces_placeholder (hw : p.startsWord = true) (hp : IsRun p) (h : EndsRun t) :
    scalarPieces ('~' :: (p ++ t)) = .placeholder p :: scalarPieces t := by
  have hfirst : (runs (p ++ t)).first = p := by
    rw [runs_run_append hp, first_eq_nil h, List.append_nil]
  have hrest : (runs (p ++ t)).rest = (runs t).rest := by
    rw [runs_run_append hp]
  simp [scalarPieces, runs_cons_break isPathChar_tilde, hfirst, hrest, hw, first_eq_nil h]

theorem scalarPieces_append_of_plain (h : '~' ∉ s) (t : Text) :
    scalarPieces (s ++ t) = s.map .plain ++ scalarPieces t := by
  induction s with
  | nil => rfl
  | cons c s ih =>
    simp only [List.mem_cons, not_or] at h
    obtain ⟨hc, hs⟩ := h
    rw [List.cons_append, scalarPieces_cons (Ne.symm hc), ih hs, List.map_cons, List.cons_append]

theorem scalarPieces_append (s : Text) (h : EndsRun t) :
    scalarPieces (s ++ t) = scalarPieces s ++ scalarPieces t := by
  simp [scalarPieces, runs_append s h, first_eq_nil h]

theorem runPieces_cons (h : c ≠ '.') (w : Text) :
    runPieces (c :: w) = .plain c :: runPieces w := by
  have hd : (c :: w).dropWhile (· != '.') = w.dropWhile (· != '.') := by simp [h]
  have ht : (c :: w).takeWhile (· != '.') = c :: w.takeWhile (· != '.') := by simp [h]
  unfold runPieces
  rw [hd, ht]
  dsimp only
  split <;> simp

theorem itemPieces_cons (h : c ≠ '.') (t : Text) :
    itemPieces (c :: t) = .plain c :: itemPieces t := by
  cases hc : isPathChar c
  · simp [itemPieces, runs_cons_break hc, runPieces]
  · simp [itemPieces, runs_cons_path hc, runPieces_cons h]

theorem itemPieces_append (s : Text) (h : EndsRun t) :
    itemPieces (s ++ t) = itemPieces s ++ itemPieces t := by
  simp [itemPieces, runs_append s h, first_eq_nil h, runPieces]

theorem itemPieces_placeholder (hw : w ≠ []) (hp : IsRun w) (h : EndsRun t) :
    itemPieces ('.' :: (w ++ t)) = .placeholder w :: itemPieces t := by
  obtain ⟨c, v, rfl⟩ := List.exists_cons_of_ne_nil hw
  have hruns : runs ('.' :: (c :: v ++ t)) = ⟨'.' :: c :: v, (runs t).rest⟩ := by
    rw [runs_cons_path isPathChar_dot, runs_run_append hp, first_eq_nil h, List.append_nil]
  simp only [itemPieces, hruns, first_eq_nil h]
  simp [runPieces]

theorem itemPieces_append_of_plain (h : '.' ∉ s) (t : Text) :
    itemPieces (s ++ t) = s.map .plain ++ itemPieces t := by
  induction s with
  | nil => rfl
  | cons c s ih =>
    simp only [List.mem_cons, not_or] at h
    obtain ⟨hc, hs⟩ := h
    rw [List.cons_append, itemPieces_cons (Ne.symm hc), ih hs, List.map_cons, List.cons_append]

end TildeMerge.Markup
