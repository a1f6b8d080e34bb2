import TildeMerge.Proofs.Files.Parents

namespace TildeMerge.Path

variable {base p name : Text}

theorem segments_append_slash (p q : Text) : segments (p ++ '/' :: q) = segments p ++ segments q := by
  rw [segments, List.splitOn_append_cons_self, List.filter_append]
  rfl

theorem segments_ne_nil (hp : p ≠ []) (ha : isAbsolute p = false) : segments p ≠ [] := by
  obtain ⟨c, q, rfl⟩ := List.exists_cons_of_ne_nil hp
  have hc : c ≠ '/' := by simpa [isAbsolute] using ha
  obtain ⟨s, ss, hq⟩ := List.exists_cons_of_ne_nil (List.splitOn_ne_nil '/' q)
  simp [segments, List.splitOn_cons_eq_if_modifyHead, hc, hq]

theorem ofSegments_append (ss ts : List Text) :
    ofSegments (ss ++ ts) = ofSegments ss ++ ofSegments ts := by
  simp [ofSegments]

theorem mem_ofSegments {c : Component} {ss : List Text} (h : c ∈ ofSegments ss) :
    c = .parent ∨ ∃ name, c = .normal name := by
  obtain ⟨s, -, rfl⟩ := List.mem_map.1 h
  unfold ofSegment
  split
  · exact .inl rfl
  · exact .inr ⟨s, rfl⟩

/-- Where a path says that it starts, if it says so: at the root, or at a single dot. -/
def anchor (p : Text) : List Component :=
  if isAbsolute p then [.root] else if (segments p).head? = some ['.'] then [.current] else []

theorem components_eq (p : Text) : components p = anchor p ++ ofSegments (segments p) := by
  unfold components anchor
  cases ha : isAbsolute p with
  | true => rfl
  | false =>
    rw [if_neg Bool.false_ne_true, if_neg Bool.false_ne_true]
    split
    · rename_i rest hs
      rw [hs]
      rfl
    · rename_i hdot
      have hhead : (segments p).head? ≠ some ['.'] := by
        intro h
        obtain ⟨rest, hrest⟩ := List.head?_eq_some_iff.1 h
        exact hdot rest hrest
      rw [if_neg hhead, List.nil_append]

theorem isAbsolute_push (h : isAbsolute base = true) (p : Text) : isAbsolute (push base p) = true := by
  unfold push
  split
  · assumption
  · cases base with
    | nil => cases h
    | cons c base =>
      split
      · exact h
      · exact h

theorem segments_push (h : isAbsolute p = false) :
    segments (push base p) = segments base ++ segments p := by
  unfold push
  rw [h, if_neg Bool.false_ne_true]
  split
  · rename_i hbase
    cases hb : base.isEmpty with
    | true =>
      rw [List.isEmpty_iff.1 hb]
      rfl
    | false =>
      -- The slash at the end of the base is the one between the two paths.
      have hlast : base.getLast? = some '/' := by simpa [hb, endsInSlash] using hbase
      have hsplit : base = base.dropLast ++ ['/'] :=
        (List.dropLast_append_getLast? '/' hlast).symm
      rw [hsplit, List.append_assoc, List.singleton_append, segments_append_slash,
        segments_append_slash]
      have hnil : segments [] = [] := rfl
      rw [hnil, List.append_nil]
  · exact segments_append_slash base p

theorem anchor_push (hb : base ≠ []) (h : isAbsolute p = false) :
    anchor (push base p) = anchor base := by
  have habs : isAbsolute (push base p) = isAbsolute base := by
    unfold push
    rw [h, if_neg Bool.false_ne_true]
    obtain ⟨c, q, rfl⟩ := List.exists_cons_of_ne_nil hb
    split
    · rfl
    · rfl
  unfold anchor
  rw [habs]
  cases ha : isAbsolute base with
  | true => rfl
  | false =>
    obtain ⟨s, ss, hs⟩ := List.exists_cons_of_ne_nil (segments_ne_nil hb ha)
    rw [segments_push h, hs]
    rfl

theorem components_push (base : Text) (h : anchor p = []) :
    components (push base p) = components base ++ components p := by
  have hp : isAbsolute p = false := by
    cases ha : isAbsolute p with
    | false => rfl
    | true => simp [anchor, ha] at h
  by_cases hb : base = []
  · subst hb
    have hpush : push [] p = p := by simp [push, hp]
    rw [hpush]
    rfl
  · rw [components_eq, components_eq base, components_eq p, anchor_push hb hp, segments_push hp, h,
      ofSegments_append, List.append_assoc, List.nil_append]

theorem anchor_eq_nil (h : components p = [.normal name]) : anchor p = [] := by
  rw [components_eq] at h
  unfold anchor at h ⊢
  split at h
  · cases h
  · rename_i ha
    rw [if_neg ha]
    split at h
    · cases h
    · rename_i hdot
      rw [if_neg hdot]

end TildeMerge.Path
