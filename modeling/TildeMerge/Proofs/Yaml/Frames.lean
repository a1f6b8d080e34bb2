import TildeMerge.Yaml.Cursor
import Mathlib.Data.List.Infix
import Mathlib.Data.List.TakeDrop

namespace TildeMerge.Yaml

def isMargin (c : Char) : Bool :=
  c == ' ' || isBreak c

/-- What stands around a text: the bytes and lines before it, and the margin behind it. -/
structure Frame where
  offset : Nat
  line : Nat
  behind : Text
  margin : ∀ c ∈ behind, isMargin c

variable {f : Frame} {c d : Cursor} {t m : Text} {p : Char → Bool} {x : Char}

theorem ne_nil_of_head?_beq (h : (t.head? == some x) = true) : t ≠ [] := by
  rintro rfl
  cases h

theorem tail_suffix_tail (h : t <:+ m) : t.tail <:+ m.tail := by
  obtain ⟨before, rfl⟩ := h
  cases before with
  | nil => exact List.suffix_rfl
  | cons y before => exact (List.tail_suffix t).trans (List.suffix_append before t)

section Margin

theorem isSpacing_or_isBreak_of_isMargin (h : isMargin x) : isSpacing x ∨ isBreak x := by
  simp only [isMargin, Bool.or_eq_true] at h
  exact h.imp_left fun hspace ↦ by simp [isSpacing, hspace]

theorem not_of_isMargin (hp : [' ', '\n', '\r', '\u0085', '\u2028', '\u2029'].all fun y ↦ !p y) :
    ∀ y, isMargin y → p y = false := by
  intro y hy
  have hmem : y ∈ [' ', '\n', '\r', '\u0085', '\u2028', '\u2029'] := by
    simpa [isMargin, isBreak, or_assoc] using hy
  simpa using List.all_eq_true.1 hp y hmem

theorem beq_of_isMargin (hx : isMargin x = false) {y : Char} (hy : isMargin y) :
    (y == x) = false := by
  rw [beq_eq_false_iff_ne]
  rintro rfl
  rw [hx] at hy
  cases hy

variable (hm : ∀ y ∈ m, isMargin y)

include hm

theorem head?_any_append (hp : ∀ y, isMargin y → p y = false) (t : Text) :
    (t ++ m).head?.any p = t.head?.any p := by
  cases t with
  | cons y t => rfl
  | nil =>
    cases m with
    | nil => rfl
    | cons y m => exact hp y (hm y List.mem_cons_self)

theorem head?_beq_append (hx : isMargin x = false) (t : Text) :
    ((t ++ m).head? == some x) = (t.head? == some x) := by
  cases t with
  | cons y t => rfl
  | nil =>
    cases m with
    | nil => rfl
    | cons y m => exact beq_of_isMargin hx (hm y List.mem_cons_self)

theorem atGap_append (t : Text) : atGap (t ++ m) = atGap t := by
  cases t with
  | cons y t => rfl
  | nil =>
    cases m with
    | nil => rfl
    | cons y m =>
      have hy := isSpacing_or_isBreak_of_isMargin (hm y List.mem_cons_self)
      simpa [atGap, or_comm] using hy

theorem atLineEnd_dropWhile : atLineEnd (m.dropWhile isSpacing) := by
  have hhead := List.head?_dropWhile_not isSpacing m
  cases hdrop : m.dropWhile isSpacing with
  | nil => rfl
  | cons y t =>
    rw [hdrop] at hhead
    have hy : isMargin y := hm y ((List.dropWhile_suffix isSpacing).subset (by simp [hdrop]))
    simpa [atLineEnd, Bool.eq_false_iff.1 hhead] using isSpacing_or_isBreak_of_isMargin hy

theorem take_beq_append {k : Text} (hk : ∀ y ∈ k, isMargin y = false) (t : Text) :
    ((t ++ m).take k.length == k) = (t.take k.length == k) := by
  induction k generalizing t with
  | nil => rfl
  | cons x k ih =>
    obtain ⟨hx, hk⟩ := List.forall_mem_cons.1 hk
    cases t with
    | cons y t =>
      simp only [List.cons_append, List.length_cons, List.take_succ_cons, List.cons_beq_cons, ih hk]
    | nil =>
      cases m with
      | nil => rfl
      | cons y m =>
        simp only [List.nil_append, List.length_cons, List.take_succ_cons, List.cons_beq_cons,
          beq_of_isMargin hx (hm y List.mem_cons_self), Bool.false_and]
        rfl

theorem takeWhile_append_margin (hp : ∀ y, isMargin y → p y = false) (t : Text) :
    (t ++ m).takeWhile p = t.takeWhile p := by
  have hmargin : m.takeWhile p = [] := by
    cases m with
    | nil => rfl
    | cons y m => simp [hp y (hm y List.mem_cons_self)]
  rw [List.takeWhile_append, hmargin]
  split
  · rename_i hall
    rw [List.append_nil, (List.takeWhile_prefix p).eq_of_length hall]
  · rfl

end Margin

namespace Cursor

theorem skip_rest (c : Cursor) (n : Nat) : (c.skip n).rest = c.rest.drop n := rfl

theorem skip_suffix (c : Cursor) (n : Nat) : (c.skip n).rest <:+ c.rest :=
  List.drop_suffix n c.rest

theorem skipWhile_rest (c : Cursor) (p : Char → Bool) :
    (c.skipWhile p).rest = c.rest.dropWhile p := by
  change c.rest.drop (c.rest.takeWhile p).length = _
  induction c.rest with
  | nil => rfl
  | cons y t ih =>
    rw [List.takeWhile_cons, List.dropWhile_cons]
    split
    · exact ih
    · rfl

theorem skipWhile_suffix (c : Cursor) (p : Char → Bool) : (c.skipWhile p).rest <:+ c.rest := by
  rw [skipWhile_rest]
  exact List.dropWhile_suffix p

theorem readBreak_suffix (c : Cursor) : c.readBreak.2.rest <:+ c.rest := by
  unfold readBreak
  split
  · rename_i rest h
    rw [h]
    exact (List.suffix_cons _ _).trans (List.suffix_cons _ _)
  · rename_i y rest _ h
    split
    · rw [h]
      exact List.suffix_cons _ _
    · exact List.suffix_rfl
  · exact List.suffix_rfl

theorem skipToLineEnd_suffix (c : Cursor) : c.skipToLineEnd.rest <:+ c.rest := by
  have hspaced := c.skipWhile_suffix isSpacing
  unfold skipToLineEnd
  dsimp only
  split
  · exact (skipWhile_suffix _ _).trans hspaced
  · exact hspaced

theorem readBreak_suffix_tail (h : c.rest.head?.any isBreak) :
    c.readBreak.2.rest <:+ c.rest.tail := by
  unfold readBreak
  split
  · rename_i rest hc
    rw [hc]
    exact List.suffix_cons _ _
  · rename_i y rest _ hc
    have hy : isBreak y := by simpa [hc] using h
    rw [if_pos hy, hc]
    exact List.suffix_rfl
  · rename_i hc
    simp [hc] at h

theorem readBreak_length_lt (h : c.rest.head?.any isBreak) :
    c.readBreak.2.rest.length < c.rest.length := by
  have hle := (readBreak_suffix_tail h).length_le
  cases hc : c.rest with
  | nil =>
    rw [hc] at h
    cases h
  | cons y t =>
    rw [hc, List.tail_cons] at hle
    exact Nat.lt_succ_of_le hle

theorem readBreak_cons {y : Char} {rest : Text} {offset line column : Nat}
    (h : ¬(y = '\r' ∧ rest.head? = some '\n')) :
    readBreak ⟨y :: rest, offset, line, column⟩ =
      if isBreak y then
        ([if y == '\u2028' || y == '\u2029' then y else '\n'],
          ⟨rest, offset + y.utf8Size, line + 1, 0⟩)
      else ([], ⟨y :: rest, offset, line, column⟩) := by
  unfold readBreak
  split
  · rename_i rest' hrest
    obtain ⟨rfl, rfl⟩ := List.cons.inj hrest
    exact absurd ⟨rfl, rfl⟩ h
  · rename_i z rest' _ hrest
    obtain ⟨rfl, rfl⟩ := List.cons.inj hrest
    rfl
  · rename_i hrest
    cases hrest

theorem three_le_of_marks
    (h : (c.rest.take 3 == ['-', '-', '-'] || c.rest.take 3 == ['.', '.', '.']) = true) :
    3 ≤ c.rest.length := by
  have hthree : (c.rest.take 3).length = 3 := by
    rw [Bool.or_eq_true, beq_iff_eq, beq_iff_eq] at h
    rcases h with h | h <;> rw [h] <;> rfl
  rw [List.length_take] at hthree
  omega

theorem three_le_of_atMarker (h : c.atMarker) : 3 ≤ c.rest.length := by
  rw [atMarker, Bool.and_eq_true, Bool.and_eq_true] at h
  exact three_le_of_marks h.1.2

/-- The cursor in the longer text. -/
def within (c : Cursor) (f : Frame) : Cursor :=
  ⟨c.rest ++ f.behind, f.offset + c.offset, f.line + c.line, c.column⟩

theorem skip_within {n : Nat} (h : n ≤ c.rest.length) :
    (c.within f).skip n = (c.skip n).within f := by
  simp only [skip, within, List.drop_append_of_le_length h, List.take_append_of_le_length h,
    Nat.add_assoc]

/-- The second cursor stands in the longer text where the first one stands in its part, or somewhere in
the margin if the first one stands at the end. -/
inductive Follows (f : Frame) : Cursor → Cursor → Prop where
  | inside (c : Cursor) : Follows f c (c.within f)
  | beyond {c d : Cursor} (hc : c.rest = []) (hd : d.rest <:+ f.behind) : Follows f c d

namespace Follows

theorem eq_within (h : c.Follows f d) (hc : c.rest ≠ []) : d = c.within f := by
  cases h with
  | inside => rfl
  | beyond hnil => exact absurd hnil hc

theorem exists_margin (h : c.Follows f d) :
    ∃ m, d.rest = c.rest ++ m ∧ m <:+ f.behind ∧ ∀ y ∈ m, isMargin y := by
  cases h with
  | inside => exact ⟨f.behind, rfl, List.suffix_rfl, f.margin⟩
  | beyond hc hd => exact ⟨d.rest, by rw [hc]; rfl, hd, fun y hy ↦ f.margin y (hd.subset hy)⟩

theorem suffix_behind (h : c.Follows f d) (hc : c.rest = []) : d.rest <:+ f.behind := by
  obtain ⟨m, hd, hm, -⟩ := h.exists_margin
  rw [hd, hc]
  exact hm

theorem length_le (h : c.Follows f d) : d.rest.length ≤ c.rest.length + f.behind.length := by
  obtain ⟨m, hd, hm, -⟩ := h.exists_margin
  rw [hd, List.length_append]
  exact Nat.add_le_add_left hm.length_le _

theorem head?_eq (h : c.Follows f d) (hc : c.rest ≠ []) : d.rest.head? = c.rest.head? := by
  obtain ⟨y, rest, hy⟩ := List.exists_cons_of_ne_nil hc
  rw [h.eq_within hc, within, hy]
  rfl

theorem isEmpty_eq (h : c.Follows f d) (hc : c.rest ≠ []) : d.rest.isEmpty = c.rest.isEmpty := by
  obtain ⟨y, rest, hy⟩ := List.exists_cons_of_ne_nil hc
  rw [h.eq_within hc, within, hy]
  rfl

theorem head?_any (h : c.Follows f d) (hp : ∀ y, isMargin y → p y = false) :
    d.rest.head?.any p = c.rest.head?.any p := by
  obtain ⟨m, hd, -, hm⟩ := h.exists_margin
  rw [hd, head?_any_append hm hp]

theorem head?_beq (h : c.Follows f d) (hx : isMargin x = false) :
    (d.rest.head? == some x) = (c.rest.head? == some x) := by
  obtain ⟨m, hd, -, hm⟩ := h.exists_margin
  rw [hd, head?_beq_append hm hx]

theorem atGap (h : c.Follows f d) : atGap d.rest = atGap c.rest := by
  obtain ⟨m, hd, -, hm⟩ := h.exists_margin
  rw [hd, atGap_append hm]

theorem skip {n : Nat} (h : c.Follows f d) (hn : n ≤ c.rest.length) :
    (c.skip n).Follows f (d.skip n) := by
  cases h with
  | inside =>
    rw [skip_within hn]
    exact .inside _
  | beyond hc hd => exact .beyond (by rw [skip_rest, hc, List.drop_nil]) ((skip_suffix d n).trans hd)

theorem skip_one (h : c.Follows f d) (hc : c.rest ≠ []) : (c.skip 1).Follows f (d.skip 1) :=
  h.skip (List.length_pos_iff.2 hc)

/-- Within the part, what is skipped in the longer text is what is skipped in the part. -/
theorem span_fst_of_ne (h : c.Follows f d) (hc : (c.skipWhile p).rest ≠ []) :
    (d.span p).1 = (c.span p).1 := by
  have hne : c.rest ≠ [] := by
    intro hnil
    rw [skipWhile_rest, hnil] at hc
    exact hc rfl
  obtain rfl := h.eq_within hne
  change (c.rest ++ f.behind).takeWhile p = c.rest.takeWhile p
  rw [List.takeWhile_append, if_neg]
  intro hall
  rw [skipWhile_rest] at hc
  have hdrop := congrArg List.length (List.takeWhile_append_dropWhile (p := p) (l := c.rest))
  rw [List.length_append, hall] at hdrop
  exact hc (List.length_eq_zero_iff.1 (by omega))

theorem span_fst (h : c.Follows f d) (hp : ∀ y, isMargin y → p y = false) :
    (d.span p).1 = (c.span p).1 := by
  obtain ⟨m, hd, -, hm⟩ := h.exists_margin
  change d.rest.takeWhile p = c.rest.takeWhile p
  rw [hd, takeWhile_append_margin hm hp]

theorem skipWhile (h : c.Follows f d) (p : Char → Bool) :
    (c.skipWhile p).Follows f (d.skipWhile p) := by
  by_cases hc : (c.skipWhile p).rest = []
  · refine .beyond hc ?_
    obtain ⟨m, hd, hm, -⟩ := h.exists_margin
    rw [skipWhile_rest] at hc ⊢
    rw [hd, List.dropWhile_append, hc]
    exact (List.dropWhile_suffix p).trans hm
  · have htaken := h.span_fst_of_ne hc
    have hskip : d.skipWhile p = d.skip (c.span p).1.length := by
      rw [← htaken]
      rfl
    rw [hskip]
    exact h.skip (List.takeWhile_prefix p).length_le

theorem exists_span (h : c.Follows f d) (hp : ∀ y, isMargin y → p y = false) :
    ∃ taken c' d', c.span p = (taken, c') ∧ d.span p = (taken, d') ∧ c'.Follows f d' ∧
      c'.rest <:+ c.rest :=
  ⟨(c.span p).1, c.skipWhile p, d.skipWhile p, rfl, by rw [← h.span_fst hp]; rfl, h.skipWhile p,
    c.skipWhile_suffix p⟩

theorem readBreak_within_of_ne (hc : c.rest ≠ []) :
    (c.within f).readBreak.1 = c.readBreak.1 ∧ c.readBreak.2.Follows f (c.within f).readBreak.2 := by
  obtain ⟨rest, offset, line, column⟩ := c
  obtain ⟨y, rest, rfl⟩ := List.exists_cons_of_ne_nil hc
  by_cases hcr : y = '\r' ∧ rest.head? = some '\n'
  · obtain ⟨rfl, hlf⟩ := hcr
    obtain ⟨rest, rfl⟩ := List.head?_eq_some_iff.1 hlf
    exact ⟨rfl, .inside ⟨rest, offset + 2, line + 1, 0⟩⟩
  · by_cases hcr' : y = '\r' ∧ (rest ++ f.behind).head? = some '\n'
    -- The break is cut in two by the end of the part.
    · obtain ⟨rfl, hlf⟩ := hcr'
      obtain rfl : rest = [] := by
        cases rest with
        | nil => rfl
        | cons z rest => exact absurd ⟨rfl, hlf⟩ hcr
      obtain ⟨behind, hbehind⟩ := List.head?_eq_some_iff.1 hlf
      have hbreak : (Cursor.within ⟨['\r'], offset, line, column⟩ f).readBreak =
          (['\n'], ⟨behind, f.offset + offset + 2, f.line + line + 1, 0⟩) := by
        simp only [Cursor.readBreak, within, List.cons_append, hbehind]
      rw [hbreak]
      refine ⟨rfl, .beyond rfl ?_⟩
      rw [List.nil_append] at hbehind
      rw [hbehind]
      exact List.suffix_cons _ _
    · have hwithin : (Cursor.within ⟨y :: rest, offset, line, column⟩ f) =
          ⟨y :: (rest ++ f.behind), f.offset + offset, f.line + line, column⟩ := rfl
      rw [hwithin, readBreak_cons hcr, readBreak_cons hcr']
      split
      · refine ⟨rfl, ?_⟩
        rw [Nat.add_assoc]
        exact .inside ⟨rest, offset + y.utf8Size, line + 1, 0⟩
      · exact ⟨rfl, .inside _⟩

theorem readBreak_fst (h : c.Follows f d) (hc : c.rest ≠ []) : d.readBreak.1 = c.readBreak.1 := by
  rw [h.eq_within hc]
  exact (readBreak_within_of_ne hc).1

theorem readBreak (h : c.Follows f d) : c.readBreak.2.Follows f d.readBreak.2 := by
  by_cases hc : c.rest = []
  · have hnil : c.readBreak.2.rest = [] := by
      have hsuffix := c.readBreak_suffix
      rwa [hc, List.suffix_nil] at hsuffix
    exact .beyond hnil (d.readBreak_suffix.trans (h.suffix_behind hc))
  · rw [h.eq_within hc]
    exact (readBreak_within_of_ne hc).2

theorem atMarker (h : c.Follows f d) : d.atMarker = c.atMarker := by
  obtain ⟨m, hd, -, hm⟩ := h.exists_margin
  have hhyphen : isMargin '-' = false := by decide
  have hdot : isMargin '.' = false := by decide
  have hhyphens := take_beq_append hm (k := ['-', '-', '-']) (by simp [hhyphen]) c.rest
  have hdots := take_beq_append hm (k := ['.', '.', '.']) (by simp [hdot]) c.rest
  rw [← hd] at hhyphens hdots
  simp only [List.length_cons, List.length_nil, Nat.zero_add, Nat.reduceAdd] at hhyphens hdots
  unfold Cursor.atMarker
  rw [hhyphens, hdots]
  cases hmark : c.rest.take 3 == ['-', '-', '-'] || c.rest.take 3 == ['.', '.', '.'] with
  | true =>
    have hlength := three_le_of_marks hmark
    have hne : c.rest ≠ [] := by
      rintro hnil
      rw [hnil] at hlength
      exact absurd hlength (by decide)
    rw [hd, List.drop_append_of_le_length hlength, atGap_append hm, h.eq_within hne]
    rfl
  | false => rw [Bool.and_false, Bool.and_false, Bool.false_and, Bool.false_and]

theorem skipLine (h : c.Follows f d) : c.skipLine.Follows f d.skipLine :=
  h.skipWhile _

theorem skipToLineEnd (h : c.Follows f d) : c.skipToLineEnd.Follows f d.skipToLineEnd := by
  have hspaced := h.skipWhile isSpacing
  unfold Cursor.skipToLineEnd
  dsimp only
  rw [hspaced.head?_beq (by decide)]
  split
  · exact hspaced.skipLine
  · exact hspaced

end Follows

theorem atLineEnd_skipLine (c : Cursor) : atLineEnd c.skipLine.rest := by
  have hrest : c.skipLine.rest = c.rest.dropWhile fun y ↦ !isBreak y := c.skipWhile_rest _
  rw [hrest]
  have hhead := List.head?_dropWhile_not (fun y ↦ !isBreak y) c.rest
  cases hdrop : c.rest.dropWhile fun y ↦ !isBreak y with
  | nil => rfl
  | cons y t =>
    rw [hdrop] at hhead
    simpa [atLineEnd] using hhead

theorem Follows.atLineEnd_skipToLineEnd (h : c.Follows f d) :
    atLineEnd d.skipToLineEnd.rest = atLineEnd c.skipToLineEnd.rest := by
  have hspaced := h.skipWhile isSpacing
  unfold Cursor.skipToLineEnd
  dsimp only
  rw [hspaced.head?_beq (by decide)]
  split
  · rw [atLineEnd_skipLine, atLineEnd_skipLine]
  · by_cases hc : (c.skipWhile isSpacing).rest = []
    · obtain ⟨m, hd, -, hm⟩ := h.exists_margin
      rw [hc]
      rw [skipWhile_rest] at hc ⊢
      rw [hd, List.dropWhile_append, hc]
      exact atLineEnd_dropWhile hm
    · rw [hspaced.eq_within hc]
      obtain ⟨y, t, hy⟩ := List.exists_cons_of_ne_nil hc
      simp [within, hy, atLineEnd]

end Cursor

end TildeMerge.Yaml
