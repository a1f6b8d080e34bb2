import TildeMerge.Proofs.Markup.Cuts
import Mathlib.Data.List.TakeWhile

namespace TildeMerge.Markup

variable {c : Char} {s t g a : Text}

theorem tail_suffix_cons (p : Section) (ss : List Section) : tail ss <:+ tail (p :: ss) := by
  unfold tail
  rw [List.reverse_cons, List.takeWhile_append]
  split
  · rename_i hall
    have hself := (List.takeWhile_prefix _).eq_of_length hall
    rw [hself, List.reverse_append, List.flatMap_append]
    exact List.suffix_append _ _
  · exact List.suffix_rfl

theorem tail_plain (t : Text) : tail (t.map .plain) = t := by
  unfold tail
  rw [List.takeWhile_eq_self_iff.2, List.reverse_reverse, List.flatMap_map]
  · exact List.flatMap_singleton' t
  · intro p hp
    obtain ⟨c, -, rfl⟩ := List.mem_map.1 (List.mem_reverse.1 hp)
    rfl

theorem exists_front (ss : List Section) : ∃ front, ss = front ++ (tail ss).map .plain ∧
    (front = [] ∨ ∃ rest region, front = rest ++ [.block region]) := by
  induction ss using List.reverseRecOn with
  | nil => exact ⟨[], rfl, .inl rfl⟩
  | append_singleton ss last ih =>
    cases last with
    | plain c =>
      obtain ⟨front, hss, hfront⟩ := ih
      have htail : tail (ss ++ [.plain c]) = tail ss ++ [c] := by simp [tail, Section.text]
      refine ⟨front, ?_, hfront⟩
      rw [htail, List.map_append, ← List.append_assoc, ← hss]
      rfl
    | block region =>
      have htail : tail (ss ++ [.block region]) = [] := by simp [tail]
      refine ⟨ss ++ [.block region], ?_, .inr ⟨ss, region, rfl⟩⟩
      rw [htail, List.map_nil, List.append_nil]

theorem sections_of_toCloser_eq_none (h : toCloser t = none) : sections t = t.map .plain := by
  induction t with
  | nil => rfl
  | cons c t ih =>
    have ht : toCloser t = none := by
      rw [toCloser] at h
      split at h
      · cases h
      · exact Option.map_eq_none_iff.1 h
    rw [sections_unclosed ht, ih ht, List.map_cons]

theorem sections_of_blocks_eq_nil (h : blocks t = []) : sections t = t.map .plain := by
  have hnone : ∀ region, .block region ∉ sections t := by
    intro region hmem
    obtain ⟨start, hb⟩ := exists_mem_locateBlocks 0 hmem
    rw [← blocks, h] at hb
    cases hb
  clear h
  induction t using sections_induction with
  | nil => rfl
  | plain c t ho ih =>
    rw [sections_plain ho] at hnone ⊢
    rw [ih fun region hmem ↦ hnone region (List.mem_cons_of_mem _ hmem), List.map_cons]
  | unclosed c t ho hclose ih =>
    rw [sections_unclosed hclose, sections_of_toCloser_eq_none hclose, List.map_cons]
  | block c t g a ho hclose ih =>
    rw [sections_block ho hclose] at hnone
    exact absurd List.mem_cons_self (hnone (c :: g))

theorem not_infix_tail_of_cons {p : Section} {ss : List Section} (h : ¬ opener <:+: tail (p :: ss)) :
    ¬ opener <:+: tail ss :=
  fun hi ↦ h (hi.trans (tail_suffix_cons p ss).isInfix)

theorem opener_infix_tail (ho : opens c s = true) (hclose : toCloser s = none) :
    opener <:+: tail (sections (c :: s)) := by
  have hplain : sections (c :: s) = (c :: s).map .plain := by
    rw [sections_unclosed hclose, sections_of_toCloser_eq_none hclose, List.map_cons]
  rw [hplain, tail_plain]
  exact (opens_iff.1 ho).isInfix

/-- A text that leaves no block open keeps its sections, whatever comes behind its last run. -/
theorem sections_append (h : ¬ opener <:+: tail (sections s)) (ht : EndsRun t) :
    sections (s ++ t) = sections s ++ sections t := by
  have hcut (c : Char) (s : Text) : opens c (s ++ t) = opens c s :=
    opens_append (not_completes_of_endsRun isRun_tail_opener ht)
  induction s using sections_induction with
  | nil => rfl
  | plain c s ho ih =>
    have hs := sections_plain ho
    rw [hs] at h ⊢
    rw [List.cons_append, sections_plain ((hcut c s).trans ho), ih (not_infix_tail_of_cons h)]
    rfl
  | unclosed c s ho hclose ih => exact absurd (opener_infix_tail ho hclose) h
  | block c s g a ho hclose ih =>
    have hs := sections_block ho hclose
    have hlong := toCloser_append_of_some (not_completes_of_endsRun isRun_tail_closing ht) hclose
    rw [hs] at h ⊢
    rw [List.cons_append, sections_block ((hcut c s).trans ho) hlong,
      ih (not_infix_tail_of_cons h)]
    rfl

end TildeMerge.Markup
