import TildeMerge.Proofs.Results
import TildeMerge.Proofs.Yaml.Frames
import TildeMerge.Yaml.Scalar
import Mathlib.Data.Option.Basic

namespace TildeMerge.Yaml

variable {α : Type} {f : Frame} {c d : Cursor} {t u m : Text} {fuel fuel' stop : Nat}

theorem rel_ite {R : α → α → Prop} {p q : Bool} {r r' s s' : α} (hpq : q = p) (ht : p → R r s)
    (hf : p = false → R r' s') : R (if p then r else r') (if q then s else s') := by
  subst hpq
  split
  · rename_i hq
    exact ht hq
  · rename_i hq
    exact hf (Bool.eq_false_iff.2 hq)

/-- Two readers have both failed, or the second one follows the first one. What they have read is the
same if there is text left. The first one stands in a given rest of the text. -/
inductive Meets (f : Frame) (t : Text) : Option (α × Cursor) → Option (α × Cursor) → Prop where
  | failed : Meets f t none none
  | read {c d : Cursor} {x y : α} (h : c.Follows f d) (same : c.rest ≠ [] → x = y)
    (hc : c.rest <:+ t) : Meets f t (some (x, c)) (some (y, d))

namespace Meets

theorem mono {r s : Option (α × Cursor)} (h : Meets f t r s) (htu : t <:+ u) : Meets f u r s := by
  cases h with
  | failed => exact .failed
  | read h same hc => exact .read h same (hc.trans htu)

theorem map {β : Type} {r s : Option (α × Cursor)} (h : Meets f t r s) {g g' : α → β} (hg : g = g') :
    Meets f t (r.map fun p ↦ (g p.1, p.2)) (s.map fun p ↦ (g' p.1, p.2)) := by
  cases h with
  | failed => exact .failed
  | read h same hc => exact .read h (fun hne ↦ by rw [same hne, hg]) hc

end Meets

/-- Two readers have both failed, or have read the same, and the second one follows the first one. -/
inductive Agrees (f : Frame) (t : Text) : Option (α × Cursor) → Option (α × Cursor) → Prop where
  | failed : Agrees f t none none
  | read {c d : Cursor} {x : α} (h : c.Follows f d) (hc : c.rest <:+ t) :
    Agrees f t (some (x, c)) (some (x, d))

theorem Agrees.mono {r s : Option (α × Cursor)} (h : Agrees f t r s) (htu : t <:+ u) :
    Agrees f u r s := by
  cases h with
  | failed => exact .failed
  | read h hc => exact .read h (hc.trans htu)

theorem Agrees.map {β : Type} {r s : Option (α × Cursor)} (h : Agrees f t r s) (g : α → β) :
    Agrees f t (r.map fun p ↦ (g p.1, p.2)) (s.map fun p ↦ (g p.1, p.2)) := by
  cases h with
  | failed => exact .failed
  | read h hc => exact .read h hc

theorem margin_of_nil (hc : c.rest = []) : ∀ y ∈ c.rest, isMargin y := by
  rw [hc]
  exact List.forall_mem_nil _

theorem Cursor.Follows.margin_of_nil (h : c.Follows f d) (hc : c.rest = []) :
    ∀ y ∈ d.rest, isMargin y :=
  fun y hy ↦ f.margin y ((h.suffix_behind hc).subset hy)

def Cursor.tabBefore (c : Cursor) (stop : Nat) : Bool :=
  ((c.span isSpacing).1.take (stop - c.column)).contains '\t'

namespace Gap

theorem emptyLines_succ (stop fuel : Nat) (c : Cursor) :
    emptyLines stop (fuel + 1) c =
      if c.tabBefore stop then none
      else if (c.skipWhile isSpacing).rest.head?.any isBreak then
        (emptyLines stop fuel (c.skipWhile isSpacing).readBreak.2).map fun p ↦
          ((c.skipWhile isSpacing).readBreak.1 ++ p.1, p.2)
      else some ([], c.skipWhile isSpacing) := by
  change (guard ((!c.tabBefore stop) = true) >>= fun _ ↦
    if (c.skipWhile isSpacing).rest.head?.any isBreak then
      emptyLines stop fuel (c.skipWhile isSpacing).readBreak.2 >>= fun p ↦
        some ((c.skipWhile isSpacing).readBreak.1 ++ p.1, p.2)
    else some ([], c.skipWhile isSpacing)) = _
  rw [guard_bind_eq_ite]
  cases c.tabBefore stop with
  | true => rfl
  | false =>
    rw [Bool.not_false, if_pos rfl, if_neg Bool.false_ne_true]
    cases emptyLines stop fuel (c.skipWhile isSpacing).readBreak.2 <;> rfl

theorem read_eq (stop fuel : Nat) (c : Cursor) :
    read stop fuel c =
      if (c.skipWhile isSpacing).rest.head?.any isBreak then
        (emptyLines stop fuel (c.skipWhile isSpacing).readBreak.2).map fun p ↦
          (breaks (c.skipWhile isSpacing).readBreak.1 p.1, p.2)
      else some (spacing (c.span isSpacing).1, c.skipWhile isSpacing) := by
  change (if (c.skipWhile isSpacing).rest.head?.any isBreak then
    emptyLines stop fuel (c.skipWhile isSpacing).readBreak.2 >>= fun p ↦
      some (breaks (c.skipWhile isSpacing).readBreak.1 p.1, p.2)
    else some (spacing (c.span isSpacing).1, c.skipWhile isSpacing)) = _
  cases emptyLines stop fuel (c.skipWhile isSpacing).readBreak.2 <;> rfl

theorem tabBefore_of_margin (hm : ∀ y ∈ c.rest, isMargin y) (stop : Nat) :
    c.tabBefore stop = false := by
  have hnot : '\t' ∉ (c.span isSpacing).1.take (stop - c.column) := fun hmem ↦
    absurd (hm '\t' ((List.takeWhile_prefix isSpacing).subset (List.mem_of_mem_take hmem)))
      (by decide)
  simpa [Cursor.tabBefore] using hnot

theorem exists_takeWhile_append (p : Char → Bool) (t m : Text) :
    ∃ more, (t ++ m).takeWhile p = t.takeWhile p ++ more ∧ more <+: m := by
  rw [List.takeWhile_append]
  split
  · rename_i hall
    exact ⟨_, by rw [(List.takeWhile_prefix p).eq_of_length hall], List.takeWhile_prefix p⟩
  · exact ⟨[], (List.append_nil _).symm, List.nil_prefix⟩

theorem tabBefore_of_follows (h : c.Follows f d) (stop : Nat) :
    d.tabBefore stop = c.tabBefore stop := by
  cases h with
  | beyond hc hd =>
    rw [tabBefore_of_margin (margin_of_nil hc), tabBefore_of_margin fun y hy ↦ f.margin y (hd.subset hy)]
  | inside =>
    obtain ⟨more, htaken, hmore⟩ := exists_takeWhile_append isSpacing c.rest f.behind
    have hnot (n : Nat) : '\t' ∉ more.take n := fun hmem ↦
      absurd (f.margin '\t' (hmore.subset (List.mem_of_mem_take hmem))) (by decide)
    change (((c.rest ++ f.behind).takeWhile isSpacing).take (stop - c.column)).contains '\t' = _
    rw [htaken, List.take_append, Bool.eq_iff_iff]
    simp [Cursor.tabBefore, Cursor.span, hnot]

theorem emptyLines_of_margin (hm : ∀ y ∈ c.rest, isMargin y) (stop fuel : Nat) :
    ∃ others d, emptyLines stop fuel c = some (others, d) ∧ d.rest <:+ c.rest := by
  induction fuel generalizing c with
  | zero => exact ⟨[], c, rfl, List.suffix_rfl⟩
  | succ fuel ih =>
    rw [emptyLines_succ, tabBefore_of_margin hm, if_neg Bool.false_ne_true]
    have hspaced := c.skipWhile_suffix isSpacing
    split
    · have hbroken := (c.skipWhile isSpacing).readBreak_suffix.trans hspaced
      obtain ⟨others, d, hd, hsuffix⟩ := ih fun y hy ↦ hm y (hbroken.subset hy)
      rw [hd]
      exact ⟨_, d, rfl, hsuffix.trans hbroken⟩
    · exact ⟨_, _, rfl, hspaced⟩

theorem read_of_margin (hm : ∀ y ∈ c.rest, isMargin y) (stop fuel : Nat) :
    ∃ gap d, read stop fuel c = some (gap, d) ∧ d.rest <:+ c.rest := by
  rw [read_eq]
  have hspaced := c.skipWhile_suffix isSpacing
  split
  · have hbroken := (c.skipWhile isSpacing).readBreak_suffix.trans hspaced
    obtain ⟨others, d, hd, hsuffix⟩ :=
      emptyLines_of_margin (fun y hy ↦ hm y (hbroken.subset hy)) stop fuel
    rw [hd]
    exact ⟨_, d, rfl, hsuffix.trans hbroken⟩
  · exact ⟨_, _, rfl, hspaced⟩

theorem meets_behind_spacing {g : Text → Text → α} {x x' : α} (h : c.Follows f d)
    (hx : c.rest ≠ [] → x = x') (hend : c.rest.head?.any isBreak = false → c.rest <:+ t)
    (hlines : c.rest.head?.any isBreak → Meets f t (emptyLines stop fuel c.readBreak.2)
      (emptyLines stop fuel' d.readBreak.2)) :
    Meets f t
      (if c.rest.head?.any isBreak then
        (emptyLines stop fuel c.readBreak.2).map fun p ↦ (g c.readBreak.1 p.1, p.2)
      else some (x, c))
      (if d.rest.head?.any isBreak then
        (emptyLines stop fuel' d.readBreak.2).map fun p ↦ (g d.readBreak.1 p.1, p.2)
      else some (x', d)) := by
  by_cases hc : c.rest = []
  · have hd := h.suffix_behind hc
    have hnone : c.rest.head?.any isBreak = false := by
      rw [hc]
      rfl
    rw [hnone, if_neg Bool.false_ne_true]
    split
    · have hbroken := d.readBreak_suffix.trans hd
      obtain ⟨others, e, he, hsuffix⟩ :=
        emptyLines_of_margin (fun y hy ↦ f.margin y (hbroken.subset hy)) stop fuel'
      rw [he]
      exact .read (.beyond hc (hsuffix.trans hbroken)) (absurd hc) (hend hnone)
    · exact .read h (absurd hc) (hend hnone)
  · rw [h.head?_eq hc]
    split
    · rename_i hbreak
      exact (hlines hbreak).map (by rw [h.readBreak_fst hc])
    · rename_i hbreak
      exact .read h hx (hend (by simpa using hbreak))

theorem emptyLines_meets (h : c.Follows f d) (hfuel : c.rest.length < fuel)
    (hfuel' : c.rest.length + f.behind.length < fuel') :
    Meets f c.rest (emptyLines stop fuel c) (emptyLines stop fuel' d) := by
  induction fuel generalizing fuel' c d with
  | zero => exact absurd hfuel (Nat.not_lt_zero _)
  | succ fuel ih =>
    obtain ⟨fuel', rfl⟩ := Nat.exists_eq_add_one.2 (Nat.zero_lt_of_lt hfuel')
    have hspaced := h.skipWhile isSpacing
    have hsuffix := c.skipWhile_suffix isSpacing
    rw [emptyLines_succ, emptyLines_succ, tabBefore_of_follows h]
    split
    · exact .failed
    · refine meets_behind_spacing hspaced (fun _ ↦ rfl) (fun _ ↦ hsuffix) fun hbreak ↦ ?_
      have hlength := Cursor.readBreak_length_lt hbreak
      have hle := hsuffix.length_le
      refine (ih hspaced.readBreak ?_ ?_).mono ((Cursor.readBreak_suffix _).trans hsuffix)
      · omega
      · omega

theorem read_meets (h : c.Follows f d) (hgap : atGap c.rest) (hfuel : c.rest.length ≤ fuel)
    (hfuel' : c.rest.length + f.behind.length ≤ fuel') :
    Meets f c.rest.tail (read stop fuel c) (read stop fuel' d) := by
  have hspaced := h.skipWhile isSpacing
  have hsuffix := c.skipWhile_suffix isSpacing
  rw [read_eq, read_eq]
  refine meets_behind_spacing hspaced (fun hne ↦ ?_) (fun hnone ↦ ?_) fun hbreak ↦ ?_
  · rw [h.span_fst_of_ne hne]
  · cases hc : c.rest with
    | nil =>
      rw [hc, List.suffix_nil] at hsuffix
      rw [hsuffix]
      exact List.nil_suffix
    | cons y rest =>
      rw [Cursor.skipWhile_rest, hc, List.dropWhile_cons] at hnone ⊢
      split
      · exact List.dropWhile_suffix _
      · rename_i hspacing
        rw [if_neg hspacing] at hnone
        simp_all [atGap]
  · have hlength := Cursor.readBreak_length_lt hbreak
    have hle := hsuffix.length_le
    have htail := (Cursor.readBreak_suffix_tail hbreak).trans (tail_suffix_tail hsuffix)
    refine (emptyLines_meets hspaced.readBreak ?_ ?_).mono htail
    · omega
    · omega

end Gap

theorem plainPiece_append (hm : ∀ y ∈ m, isMargin y) (inFlow : Bool) (t : Text) :
    plainPiece inFlow (t ++ m) = plainPiece inFlow t := by
  induction t with
  | nil =>
    cases m with
    | nil => rfl
    | cons y m =>
      have hy := isSpacing_or_isBreak_of_isMargin (hm y List.mem_cons_self)
      have hempty : plainPiece inFlow (y :: m) = some [] := by
        rw [plainPiece, if_pos (by simpa [or_comm] using hy)]
      exact hempty
  | cons y t ih =>
    have hmark : ∀ e, isMargin e → (isFlowMark e || e == '?') = false := not_of_isMargin (by rfl)
    rw [List.cons_append, plainPiece, plainPiece, head?_any_append hm hmark, atGap_append hm, ih]

theorem plainPiece_isPrefix {inFlow : Bool} {piece : Text} (h : plainPiece inFlow t = some piece) :
    piece <+: t := by
  induction t generalizing piece with
  | nil =>
    obtain rfl : [] = piece := Option.some.inj h
    exact List.nil_prefix
  | cons y t ih =>
    rw [plainPiece] at h
    split at h
    · obtain rfl : [] = piece := Option.some.inj h
      exact List.nil_prefix
    · split at h
      · cases h
      · split at h
        · obtain rfl : [] = piece := Option.some.inj h
          exact List.nil_prefix
        · split at h
          · obtain rfl : [] = piece := Option.some.inj h
            exact List.nil_prefix
          · obtain ⟨more, hmore, rfl⟩ := Option.map_eq_some_iff.1 h
            exact List.cons_prefix_cons.2 ⟨rfl, ih hmore⟩

theorem Cursor.Follows.plainPiece (h : c.Follows f d) (inFlow : Bool) :
    plainPiece inFlow d.rest = plainPiece inFlow c.rest := by
  obtain ⟨m, hd, -, hm⟩ := h.exists_margin
  rw [hd, plainPiece_append hm]

def plainBehind (inFlow : Bool) (indent fuel : Nat) (t : Text) (c : Cursor) :
    Option (Text × Bool × Cursor) :=
  if !atGap c.rest || c.rest.isEmpty then some (t, false, c)
  else (Gap.read indent fuel c).bind fun p ↦
    if !inFlow && p.2.column < indent then some (t, p.1.isBroken, p.2)
    else (plainFrom inFlow indent fuel p.1 p.2).map fun q ↦ (t ++ q.1, q.2)

theorem plainFrom_succ (inFlow : Bool) (indent fuel : Nat) (gap : Gap) (c : Cursor) :
    plainFrom inFlow indent (fuel + 1) gap c =
      if c.atMarker || c.rest.head? == some '#' then some ([], gap.isBroken, c)
      else (plainPiece inFlow c.rest).bind fun piece ↦
        if piece.isEmpty then some ([], gap.isBroken, c.skip piece.length)
        else plainBehind inFlow indent fuel (gap.text ++ piece) (c.skip piece.length) := by
  rw [plainFrom]
  refine if_congr Iff.rfl rfl ?_
  cases plainPiece inFlow c.rest with
  | none => rfl
  | some piece =>
    refine if_congr Iff.rfl rfl (if_congr Iff.rfl rfl ?_)
    cases Gap.read indent fuel (c.skip piece.length) with
    | none => rfl
    | some p =>
      refine if_congr Iff.rfl rfl ?_
      cases plainFrom inFlow indent fuel p.1 p.2 <;> rfl

theorem atMarker_of_margin (hm : ∀ y ∈ c.rest, isMargin y) : c.atMarker = false := by
  have hhyphen : isMargin '-' = false := by decide
  have hdot : isMargin '.' = false := by decide
  have hhyphens := take_beq_append hm (k := ['-', '-', '-']) (by simp [hhyphen]) []
  have hdots := take_beq_append hm (k := ['.', '.', '.']) (by simp [hdot]) []
  have hthree : (c.rest.take 3 == ['-', '-', '-'] || c.rest.take 3 == ['.', '.', '.']) = false := by
    rw [Bool.or_eq_false_iff]
    exact ⟨hhyphens, hdots⟩
  rw [Cursor.atMarker, hthree, Bool.and_false, Bool.false_and]

theorem plainFrom_of_margin (hm : ∀ y ∈ c.rest, isMargin y) (inFlow : Bool) (indent fuel : Nat)
    (gap : Gap) : plainFrom inFlow indent fuel gap c = some ([], gap.isBroken, c) := by
  cases fuel with
  | zero => rfl
  | succ fuel =>
    have hcomment := head?_beq_append hm (x := '#') (by decide) []
    have hpiece := plainPiece_append hm inFlow []
    rw [List.nil_append] at hcomment hpiece
    rw [plainFrom_succ, atMarker_of_margin hm, hcomment, hpiece]
    rfl

/-- Two readers have both failed, or have both read a text, and the second one follows the first one.
Whether a line break comes behind the text may differ only where nothing is left of the part. -/
inductive PlainMeets (f : Frame) (t : Text) :
    Option (Text × Bool × Cursor) → Option (Text × Bool × Cursor) → Prop where
  | failed : PlainMeets f t none none
  | read {c d : Cursor} {x : Text} {broken broken' : Bool} (h : c.Follows f d)
    (same : c.rest ≠ [] → broken = broken') (hc : c.rest <:+ t) :
    PlainMeets f t (some (x, broken, c)) (some (x, broken', d))

theorem PlainMeets.mono {r s : Option (Text × Bool × Cursor)} (h : PlainMeets f t r s)
    (htu : t <:+ u) : PlainMeets f u r s := by
  cases h with
  | failed => exact .failed
  | read h same hc => exact .read h same (hc.trans htu)

theorem PlainMeets.map {r s : Option (Text × Bool × Cursor)} (h : PlainMeets f t r s) (x : Text) :
    PlainMeets f t (r.map fun q ↦ (x ++ q.1, q.2)) (s.map fun q ↦ (x ++ q.1, q.2)) := by
  cases h with
  | failed => exact .failed
  | read h same hc => exact .read h same hc

theorem plainGap_of_margin (hm : ∀ y ∈ c.rest, isMargin y) (inFlow : Bool) (indent fuel : Nat)
    (x : Text) (gap : Gap) :
    (if !inFlow && c.column < indent then some (x, gap.isBroken, c)
      else (plainFrom inFlow indent fuel gap c).map fun q ↦ (x ++ q.1, q.2)) =
        some (x, gap.isBroken, c) := by
  rw [plainFrom_of_margin hm, Option.map_some, List.append_nil, ite_self]

theorem plainBehind_of_nil (h : c.Follows f d) (hc : c.rest = []) (inFlow : Bool) (indent fuel : Nat)
    (x : Text) : ∃ broken e, plainBehind inFlow indent fuel x d = some (x, broken, e) ∧
      c.Follows f e := by
  have hm := h.margin_of_nil hc
  have hsuffix := h.suffix_behind hc
  unfold plainBehind
  split
  · exact ⟨false, d, rfl, h⟩
  · obtain ⟨gap, e, he, hgap⟩ := Gap.read_of_margin hm indent fuel
    rw [he, Option.bind_some, plainGap_of_margin fun y hy ↦ hm y (hgap.subset hy)]
    exact ⟨_, e, rfl, .beyond hc (hgap.trans hsuffix)⟩

theorem plainBehind_meets (h : c.Follows f d) {inFlow : Bool} {indent : Nat} (x : Text)
    (hfuel : c.rest.length < fuel) (hfuel' : c.rest.length + f.behind.length < fuel')
    (hfrom : ∀ {e e' : Cursor} {gap : Gap}, e.Follows f e' → e.rest.length < c.rest.length →
      PlainMeets f e.rest (plainFrom inFlow indent fuel gap e)
        (plainFrom inFlow indent fuel' gap e')) :
    PlainMeets f c.rest (plainBehind inFlow indent fuel x c)
      (plainBehind inFlow indent fuel' x d) := by
  by_cases hc : c.rest = []
  · obtain ⟨broken, e, he, hfollows⟩ := plainBehind_of_nil h hc inFlow indent fuel' x
    have hend : plainBehind inFlow indent fuel x c = some (x, false, c) := by
      rw [plainBehind, hc]
      rfl
    rw [hend, he]
    exact .read hfollows (absurd hc) List.suffix_rfl
  · have hempty : c.rest.isEmpty = false := by simpa using hc
    unfold plainBehind
    rw [h.atGap, h.isEmpty_eq hc, hempty]
    cases hgap : atGap c.rest with
    | false => exact .read h (fun _ ↦ rfl) List.suffix_rfl
    | true =>
      simp only [Bool.not_true, Bool.or_self, Bool.false_eq_true, if_false]
      have hread : Meets f c.rest.tail (Gap.read indent fuel c) (Gap.read indent fuel' d) :=
        Gap.read_meets h hgap hfuel.le hfuel'.le
      have htail : c.rest.tail.length < c.rest.length := by
        rw [List.length_tail]
        exact Nat.sub_lt (List.length_pos_iff.2 hc) Nat.one_pos
      generalize Gap.read indent fuel c = r at hread ⊢
      generalize Gap.read indent fuel' d = s at hread ⊢
      cases hread with
      | failed => exact .failed
      | @read e e' gap gap' hfollows same hsuffix =>
        refine PlainMeets.mono ?_ (List.tail_suffix c.rest)
        rw [Option.bind_some, Option.bind_some]
        by_cases he : e.rest = []
        · rw [plainGap_of_margin (margin_of_nil he), plainGap_of_margin (hfollows.margin_of_nil he)]
          exact .read hfollows (absurd he) hsuffix
        · obtain rfl := same he
          obtain rfl := hfollows.eq_within he
          refine PlainMeets.mono ?_ hsuffix
          have hcolumn : (e.within f).column = e.column := rfl
          dsimp only
          rw [hcolumn]
          split
          · exact .read hfollows (fun _ ↦ rfl) List.suffix_rfl
          · exact (hfrom hfollows (hsuffix.length_le.trans_lt htail)).map x

theorem plainPiece_meets (h : c.Follows f d) {inFlow : Bool} {indent : Nat} {piece : Text}
    (hpiece : plainPiece inFlow c.rest = some piece) (hempty : piece.isEmpty = false) (x : Text)
    (hfuel : c.rest.length < fuel + 1) (hfuel' : c.rest.length + f.behind.length < fuel' + 1)
    (hfrom : ∀ {e e' : Cursor} {gap : Gap}, e.Follows f e' → e.rest.length < c.rest.length →
      PlainMeets f e.rest (plainFrom inFlow indent fuel gap e)
        (plainFrom inFlow indent fuel' gap e')) :
    PlainMeets f c.rest.tail (plainBehind inFlow indent fuel x (c.skip piece.length))
      (plainBehind inFlow indent fuel' x (d.skip piece.length)) := by
  have hle := (plainPiece_isPrefix hpiece).length_le
  obtain ⟨y, more, rfl⟩ : ∃ y more, piece = y :: more :=
    List.exists_cons_of_ne_nil (by simpa using hempty)
  have hsuffix : (c.skip (more.length + 1)).rest <:+ c.rest.tail := by
    rw [Cursor.skip_rest, ← List.drop_tail]
    exact List.drop_suffix _ _
  have hlength : (c.skip (more.length + 1)).rest.length < c.rest.length := by
    rw [List.length_cons] at hle
    rw [Cursor.skip_rest, List.length_drop]
    omega
  refine (plainBehind_meets (h.skip hle) x ?_ ?_ fun hfollows hlt ↦ ?_).mono hsuffix
  · exact hlength.trans_le (Nat.le_of_lt_succ hfuel)
  · exact (Nat.add_lt_add_right hlength _).trans_le (Nat.le_of_lt_succ hfuel')
  · exact hfrom hfollows (hlt.trans hlength)

theorem plainFrom_meets {inFlow : Bool} {indent : Nat} {gap gap' : Gap} (h : c.Follows f d)
    (hgap : c.rest ≠ [] → gap = gap') (hfuel : c.rest.length < fuel)
    (hfuel' : c.rest.length + f.behind.length < fuel') :
    PlainMeets f c.rest (plainFrom inFlow indent fuel gap c)
      (plainFrom inFlow indent fuel' gap' d) := by
  induction fuel generalizing fuel' gap gap' c d with
  | zero => exact absurd hfuel (Nat.not_lt_zero _)
  | succ fuel ih =>
    obtain ⟨fuel', rfl⟩ := Nat.exists_eq_add_one.2 (Nat.zero_lt_of_lt hfuel')
    by_cases hc : c.rest = []
    · rw [plainFrom_of_margin (margin_of_nil hc), plainFrom_of_margin (h.margin_of_nil hc)]
      exact .read h (absurd hc) List.suffix_rfl
    · obtain rfl := hgap hc
      rw [plainFrom_succ, plainFrom_succ, h.atMarker, h.head?_beq (by decide), h.plainPiece]
      split
      · exact .read h (fun _ ↦ rfl) List.suffix_rfl
      · cases hpiece : plainPiece inFlow c.rest with
        | none => exact .failed
        | some piece =>
          rw [Option.bind_some, Option.bind_some]
          cases hempty : piece.isEmpty with
          | true =>
            exact .read (h.skip (plainPiece_isPrefix hpiece).length_le) (fun _ ↦ rfl) (c.skip_suffix _)
          | false =>
            refine (plainPiece_meets h hpiece hempty _ hfuel hfuel' fun hfollows hlt ↦ ?_).mono
              (List.tail_suffix _)
            exact ih hfollows (fun _ ↦ rfl) (by omega) (by omega)

theorem plainScalar_meets {inFlow : Bool} {indent : Nat} (h : c.Follows f d)
    (hmarker : c.atMarker = false) (hcomment : (c.rest.head? == some '#') = false)
    (hpiece : plainPiece inFlow c.rest ≠ some []) (hfuel : c.rest.length < fuel)
    (hfuel' : c.rest.length + f.behind.length < fuel') :
    PlainMeets f c.rest.tail (plainScalar inFlow indent fuel c)
      (plainScalar inFlow indent fuel' d) := by
  obtain ⟨fuel, rfl⟩ := Nat.exists_eq_add_one.2 (Nat.zero_lt_of_lt hfuel)
  obtain ⟨fuel', rfl⟩ := Nat.exists_eq_add_one.2 (Nat.zero_lt_of_lt hfuel')
  rw [plainScalar, plainScalar, plainFrom_succ, plainFrom_succ, h.atMarker, h.head?_beq (by decide),
    h.plainPiece, hmarker, hcomment]
  cases hread : plainPiece inFlow c.rest with
  | none => exact .failed
  | some piece =>
    have hempty : piece.isEmpty = false := by
      rw [Bool.eq_false_iff]
      intro hnil
      rw [hread, List.isEmpty_iff.1 hnil] at hpiece
      exact hpiece rfl
    simp only [Bool.or_self, Bool.false_eq_true, if_false, Option.bind_some, hempty]
    refine plainPiece_meets h hread hempty _ hfuel hfuel' fun hfollows hlt ↦ ?_
    exact plainFrom_meets hfollows (fun _ ↦ rfl) (by omega) (by omega)

end TildeMerge.Yaml
