import TildeMerge.Proofs.Markup.Sections

namespace TildeMerge.Markup

variable {c : Char} {m s t v g a : Text}

/-- Both a part of the marker at the end of the first text and the other part at the start of the
second. -/
def Completes (marker s t : Text) : Prop :=
  ∃ k < marker.length, 0 < k ∧ marker.take k <:+ s ∧ marker.drop k <+: t

instance (marker s t : Text) : Decidable (Completes marker s t) :=
  inferInstanceAs (Decidable (∃ k < marker.length,
    0 < k ∧ marker.take k <:+ s ∧ marker.drop k <+: t))

theorem Completes.mono {s' : Text} (h : Completes m s t) (hs : s <:+ s') : Completes m s' t := by
  obtain ⟨k, hk, hpos, hend, hstart⟩ := h
  exact ⟨k, hk, hpos, hend.trans hs, hstart⟩

theorem Completes.of_append (hm : IsRun m.tail) (ht : EndsRun t) (h : Completes m s (v ++ t)) :
    Completes m s v := by
  obtain ⟨k, hk, hpos, hend, hstart⟩ := h
  refine ⟨k, hk, hpos, hend, ?_⟩
  rcases Nat.le_total (m.drop k).length v.length with hle | hle
  · exact List.prefix_of_prefix_length_le hstart (List.prefix_append v t) hle
  · obtain ⟨rest, hrest⟩ := List.prefix_of_prefix_length_le (List.prefix_append v t) hstart hle
    cases rest with
    | nil => exact List.prefix_iff_eq_append.2 (by simp [← hrest])
    | cons d rest =>
      rw [← hrest] at hstart
      obtain ⟨after, hafter⟩ := (List.prefix_append_right_inj v).1 hstart
      have hd : d ∈ m.tail := by
        obtain ⟨j, rfl⟩ := Nat.exists_eq_add_of_lt hpos
        have hmem : d ∈ m.tail.drop j := by
          rw [← List.drop_one, List.drop_drop]
          have hj : 1 + j = 0 + j + 1 := by omega
          rw [hj, ← hrest]
          simp
        exact List.mem_of_mem_drop hmem
      rw [← hafter] at ht
      have hbreak := endsRun_cons.1 ht
      rw [hm d hd] at hbreak
      cases hbreak

theorem not_completes_nil : ¬ Completes m s [] := by
  rintro ⟨k, hk, -, -, hstart⟩
  have hdrop : m.drop k = [] := List.prefix_nil.1 hstart
  have hlen : m.length ≤ k := List.drop_eq_nil_iff.1 hdrop
  omega

theorem not_completes_of_endsRun (hm : IsRun m.tail) (ht : EndsRun t) : ¬ Completes m s t := by
  intro h
  exact not_completes_nil (Completes.of_append hm (v := []) ht h)

theorem prefix_append_iff (hs : s ≠ []) (h : ¬ Completes m s t) : m <+: s ++ t ↔ m <+: s := by
  refine ⟨fun hm ↦ ?_, fun hm ↦ hm.trans (List.prefix_append s t)⟩
  rcases Nat.lt_or_ge s.length m.length with hlt | hle
  · obtain ⟨rest, rfl⟩ := List.prefix_of_prefix_length_le (List.prefix_append s t) hm hlt.le
    have hrest : rest <+: t := (List.prefix_append_right_inj s).1 hm
    refine absurd ⟨s.length, hlt, List.length_pos_iff.2 hs, ?_, ?_⟩ h
    · rw [List.take_left]
    · rwa [List.drop_left]
  · exact List.prefix_of_prefix_length_le hm (List.prefix_append s t) hle

theorem isRun_tail_opener : IsRun opener.tail := by decide

theorem isRun_tail_closing : IsRun closing.tail :=
  isRun_closer

theorem opens_append (h : ¬ Completes opener (c :: s) t) : opens c (s ++ t) = opens c s := by
  rw [Bool.eq_iff_iff, opens_iff, opens_iff, ← List.cons_append,
    prefix_append_iff (List.cons_ne_nil c s) h]

theorem closes_append (h : ¬ Completes closing (c :: s) t) : closes c (s ++ t) = closes c s := by
  rw [Bool.eq_iff_iff, closes_iff, closes_iff, ← List.cons_append,
    prefix_append_iff (List.cons_ne_nil c s) h]

theorem toCloser_append_of_some (h : ¬ Completes closing s t) (hs : toCloser s = some (g, a)) :
    toCloser (s ++ t) = some (g, a ++ t) := by
  induction s generalizing g with
  | nil => cases hs
  | cons c s ih =>
    have htail : ¬ Completes closing s t := fun hc ↦ h (hc.mono (List.suffix_cons c s))
    rw [List.cons_append, toCloser, closes_append h]
    rw [toCloser] at hs
    cases hcl : closes c s with
    | true =>
      rw [hcl] at hs
      obtain ⟨rfl, rfl⟩ := Prod.mk.inj (Option.some.inj hs)
      have hlen : closer.length ≤ s.length := by
        have hp := (closes_iff.1 hcl).length_le
        exact Nat.le_of_succ_le_succ hp
      rw [if_pos rfl, List.drop_append_of_le_length hlen]
    | false =>
      rw [hcl] at hs
      obtain ⟨⟨g', a'⟩, hs', hg⟩ := Option.map_eq_some_iff.1 hs
      obtain ⟨rfl, rfl⟩ := Prod.mk.inj hg
      simp [ih htail hs']

theorem toCloser_append_of_none (h : ¬ Completes closing s t) (hs : toCloser s = none) :
    toCloser (s ++ t) = (toCloser t).map fun (g, a) ↦ (s ++ g, a) := by
  induction s with
  | nil => simp
  | cons c s ih =>
    have htail : ¬ Completes closing s t := fun hc ↦ h (hc.mono (List.suffix_cons c s))
    rw [List.cons_append, toCloser, closes_append h]
    rw [toCloser] at hs
    cases hcl : closes c s with
    | true =>
      rw [hcl] at hs
      cases hs
    | false =>
      rw [hcl] at hs
      rw [ih htail (Option.map_eq_none_iff.1 hs)]
      simp [Function.comp_def]

theorem toCloser_eq_none (h : ¬ closing <:+: t) : toCloser t = none := by
  induction t with
  | nil => rfl
  | cons c t ih =>
    have hcl : closes c t = false := by
      rw [Bool.eq_false_iff]
      exact fun hc ↦ h (closes_iff.1 hc).isInfix
    have ht : ¬ closing <:+: t := fun hi ↦ h (hi.trans (List.suffix_cons c t).isInfix)
    simp [toCloser, hcl, ih ht]

theorem toCloser_ne_nil (h : toCloser t = some (g, a)) : g ≠ [] := by
  cases t with
  | nil => cases h
  | cons c t =>
    rw [toCloser] at h
    split at h
    · obtain ⟨rfl, -⟩ := Prod.mk.inj (Option.some.inj h)
      exact List.cons_ne_nil _ _
    · obtain ⟨⟨g', a'⟩, -, hg⟩ := Option.map_eq_some_iff.1 h
      obtain ⟨rfl, -⟩ := Prod.mk.inj hg
      exact List.cons_ne_nil _ _

end TildeMerge.Markup
