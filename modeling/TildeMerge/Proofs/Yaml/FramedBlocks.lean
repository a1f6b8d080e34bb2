import TildeMerge.Proofs.Yaml.FramedScalars

namespace TildeMerge.Yaml

variable {f : Frame} {c d : Cursor} {t u : Text} {fuel fuel' indent deepest deepest' : Nat}
  {folded : Bool} {e e' : LineEnd}

/-- Two readers have both failed, or the second one follows the first one. What they have read is the
same if there is text left. The first one stands in a given rest of the text. -/
inductive BlockMeets {α β : Type} (f : Frame) (t : Text) :
    Option (α × β × Cursor) → Option (α × β × Cursor) → Prop where
  | failed : BlockMeets f t none none
  | read {c d : Cursor} {x x' : α} {y y' : β} (h : c.Follows f d)
    (same : c.rest ≠ [] → x = x' ∧ y = y') (hc : c.rest <:+ t) :
    BlockMeets f t (some (x, y, c)) (some (x', y', d))

namespace BlockMeets

variable {α β γ δ : Type} {r s : Option (α × β × Cursor)}

theorem mono (h : BlockMeets f t r s) (htu : t <:+ u) : BlockMeets f u r s := by
  cases h with
  | failed => exact .failed
  | read h same hc => exact .read h same (hc.trans htu)

theorem bind {g k : α × β × Cursor → Option (γ × δ × Cursor)} (h : BlockMeets f t r s)
    (hg : ∀ {c d : Cursor} {x x' : α} {y y' : β}, c.Follows f d → (c.rest ≠ [] → x = x' ∧ y = y') →
      c.rest <:+ t → BlockMeets f c.rest (g (x, y, c)) (k (x', y', d))) :
    BlockMeets f t (r.bind g) (s.bind k) := by
  cases h with
  | failed => exact .failed
  | read h same hc => exact (hg h same hc).mono hc

end BlockMeets

namespace Cursor

def indentation (c : Cursor) (indent : Nat) : Nat :=
  let spaces := (c.rest.takeWhile (· == ' ')).length
  if indent == 0 then spaces else min spaces (indent - c.column)

def skipIndent (c : Cursor) (indent : Nat) : Cursor :=
  c.skip (c.indentation indent)

def tabInIndent (c : Cursor) (indent : Nat) : Bool :=
  (indent == 0 || c.column < indent) && c.rest.head? == some '\t'

theorem indentation_le (c : Cursor) (indent : Nat) : c.indentation indent ≤ c.rest.length := by
  have hle := (List.takeWhile_prefix (· == ' ') (l := c.rest)).length_le
  unfold indentation
  dsimp only
  split
  · exact hle
  · exact (Nat.min_le_left _ _).trans hle

theorem Follows.skip_beyond {n n' : Nat} (h : c.Follows f d) (hn : c.rest.length ≤ n) (hn' : n ≤ n') :
    (c.skip n).Follows f (d.skip n') := by
  obtain ⟨m, hd, hm, -⟩ := h.exists_margin
  refine .beyond (List.drop_eq_nil_of_le hn) ?_
  rw [skip_rest, hd, List.drop_append, List.drop_eq_nil_of_le (hn.trans hn'), List.nil_append]
  exact (List.drop_suffix _ m).trans hm

/-- The indentation is the same, unless it goes on behind the part. -/
theorem indentation_within (c : Cursor) (f : Frame) (indent : Nat) :
    (c.within f).indentation indent = c.indentation indent ∨
      c.rest.length ≤ c.indentation indent ∧
        c.indentation indent ≤ (c.within f).indentation indent := by
  have hcolumn : (c.within f).column = c.column := rfl
  have hrest : (c.within f).rest = c.rest ++ f.behind := rfl
  unfold indentation
  dsimp only
  rw [hcolumn, hrest, List.takeWhile_append]
  by_cases hall : (c.rest.takeWhile (· == ' ')).length = c.rest.length
  · rw [if_pos hall, List.length_append]
    split <;> omega
  · rw [if_neg hall]
    exact .inl rfl

theorem Follows.skipIndent (h : c.Follows f d) (indent : Nat) :
    (c.skipIndent indent).Follows f (d.skipIndent indent) := by
  have hle := c.indentation_le indent
  by_cases hc : c.rest = []
  · have hzero : c.rest.length = 0 := List.length_eq_zero_iff.2 hc
    exact h.skip_beyond (by omega) (by omega)
  · obtain rfl := h.eq_within hc
    unfold Cursor.skipIndent
    rcases c.indentation_within f indent with hsame | ⟨hall, hmore⟩
    · rw [hsame]
      exact h.skip hle
    · exact h.skip_beyond hall hmore

theorem Follows.tabInIndent (h : c.Follows f d) (indent : Nat) :
    d.tabInIndent indent = c.tabInIndent indent := by
  unfold Cursor.tabInIndent
  rw [h.head?_beq (by decide)]
  by_cases hc : c.rest = []
  · rw [hc, List.head?_nil, Option.none_beq_some, Bool.and_false, Bool.and_false]
  · obtain rfl := h.eq_within hc
    rfl

theorem tabInIndent_of_margin (hm : ∀ y ∈ c.rest, isMargin y) (indent : Nat) :
    c.tabInIndent indent = false := by
  have htab := head?_beq_append hm (x := '\t') (by decide) []
  rw [List.nil_append] at htab
  rw [tabInIndent, htab]
  exact Bool.and_false _

end Cursor

def breaksBehind (indent fuel deepest : Nat) (c : Cursor) : Option (Nat × Text × Cursor) :=
  if c.tabInIndent indent then none
  else if c.rest.head?.any isBreak then
    (blockBreaks indent fuel (max deepest c.column) c.readBreak.2).bind fun p ↦
      some (p.1, c.readBreak.1 ++ p.2.1, p.2.2)
  else some (max deepest c.column, [], c)

theorem blockBreaks_succ (indent fuel deepest : Nat) (c : Cursor) :
    blockBreaks indent (fuel + 1) deepest c =
      breaksBehind indent fuel deepest (c.skipIndent indent) := by
  change (guard ((!(c.skipIndent indent).tabInIndent indent) = true) >>= fun _ ↦ _) = _
  rw [guard_bind_eq_ite, breaksBehind]
  cases (c.skipIndent indent).tabInIndent indent with
  | true => rfl
  | false => rfl

theorem blockBreaks_of_margin (hm : ∀ y ∈ c.rest, isMargin y) (indent fuel deepest : Nat) :
    ∃ deepest' others d, blockBreaks indent fuel deepest c = some (deepest', others, d) ∧
      d.rest <:+ c.rest := by
  induction fuel generalizing c deepest with
  | zero => exact ⟨deepest, [], c, rfl, List.suffix_rfl⟩
  | succ fuel ih =>
    have hindented : (c.skipIndent indent).rest <:+ c.rest := c.skip_suffix _
    have hbehind (y : Char) (hy : y ∈ (c.skipIndent indent).rest) : isMargin y :=
      hm y (hindented.subset hy)
    rw [blockBreaks_succ, breaksBehind, Cursor.tabInIndent_of_margin hbehind,
      if_neg Bool.false_ne_true]
    split
    · have hbroken := (c.skipIndent indent).readBreak_suffix
      obtain ⟨deepest', others, d, hd, hsuffix⟩ :=
        ih (fun y hy ↦ hbehind y (hbroken.subset hy)) (max deepest (c.skipIndent indent).column)
      rw [hd]
      exact ⟨_, _, d, rfl, hsuffix.trans (hbroken.trans hindented)⟩
    · exact ⟨_, _, _, rfl, hindented⟩

theorem breaksBehind_of_nil (h : c.Follows f d) (hc : c.rest = []) (indent fuel deepest : Nat) :
    ∃ deepest' others e, breaksBehind indent fuel deepest d = some (deepest', others, e) ∧
      c.Follows f e := by
  have hm := h.margin_of_nil hc
  have hbehind := h.suffix_behind hc
  rw [breaksBehind, Cursor.tabInIndent_of_margin hm, if_neg Bool.false_ne_true]
  split
  · have hbroken := d.readBreak_suffix
    obtain ⟨deepest', others, e, he, hsuffix⟩ :=
      blockBreaks_of_margin (fun y hy ↦ hm y (hbroken.subset hy)) indent fuel (max deepest d.column)
    rw [he]
    exact ⟨_, _, e, rfl, .beyond hc (hsuffix.trans (hbroken.trans hbehind))⟩
  · exact ⟨_, _, d, rfl, h⟩

theorem blockBreaks_meets (h : c.Follows f d) (hdeepest : c.rest ≠ [] → deepest = deepest')
    (hfuel : c.rest.length < fuel) (hfuel' : c.rest.length + f.behind.length < fuel') :
    BlockMeets f c.rest (blockBreaks indent fuel deepest c)
      (blockBreaks indent fuel' deepest' d) := by
  induction fuel generalizing fuel' c d deepest deepest' with
  | zero => exact absurd hfuel (Nat.not_lt_zero _)
  | succ fuel ih =>
    obtain ⟨fuel', rfl⟩ := Nat.exists_eq_add_one.2 (Nat.zero_lt_of_lt hfuel')
    have hindented := h.skipIndent indent
    have hsuffix : (c.skipIndent indent).rest <:+ c.rest := c.skip_suffix _
    rw [blockBreaks_succ, blockBreaks_succ]
    by_cases hne : (c.skipIndent indent).rest = []
    · obtain ⟨_, _, e, he, hfollows⟩ := breaksBehind_of_nil hindented hne indent fuel' deepest'
      have hend : breaksBehind indent fuel deepest (c.skipIndent indent) =
          some (max deepest (c.skipIndent indent).column, [], c.skipIndent indent) := by
        rw [breaksBehind, Cursor.tabInIndent_of_margin (margin_of_nil hne), hne]
        rfl
      rw [hend, he]
      exact .read hfollows (absurd hne) hsuffix
    · have hc : c.rest ≠ [] := hsuffix.ne_nil hne
      obtain rfl := hdeepest hc
      have hcolumn : (d.skipIndent indent).column = (c.skipIndent indent).column := by
        rw [hindented.eq_within hne]
        rfl
      unfold breaksBehind
      rw [hindented.tabInIndent, hindented.head?_eq hne, hcolumn]
      split
      · exact .failed
      · split
        · rename_i hbreak
          have hlength := Cursor.readBreak_length_lt hbreak
          have hle := hsuffix.length_le
          refine BlockMeets.mono (.bind (ih hindented.readBreak (fun _ ↦ rfl) (by omega) (by omega))
            fun hfollows same hrest ↦ ?_) ((Cursor.readBreak_suffix _).trans hsuffix)
          refine .read hfollows (fun hleft ↦ ?_) List.suffix_rfl
          obtain ⟨rfl, rfl⟩ := same hleft
          rw [hindented.readBreak_fst hne]
          exact ⟨rfl, rfl⟩
        · exact .read hindented (fun _ ↦ ⟨rfl, rfl⟩) hsuffix

theorem Cursor.readBreak_skipLine_length_lt (hc : c.rest ≠ []) :
    c.skipLine.readBreak.2.rest.length < c.rest.length := by
  have hsuffix := c.skipLine.readBreak_suffix.length_le
  obtain ⟨y, rest, hy⟩ := List.exists_cons_of_ne_nil hc
  have hline : c.skipLine.rest = c.rest.dropWhile fun z ↦ !isBreak z := c.skipWhile_rest _
  by_cases hbreak : isBreak y
  · have hstays : c.skipLine.rest = c.rest := by
      rw [hline, hy]
      exact List.dropWhile_cons_of_neg (by rw [hbreak]; decide)
    have hhead : c.skipLine.rest.head?.any isBreak := by
      rw [hstays, hy]
      exact hbreak
    exact hstays ▸ readBreak_length_lt hhead
  · have hshort := (List.dropWhile_suffix (fun z ↦ !isBreak z) (l := rest)).length_le
    rw [hline, hy, List.dropWhile_cons_of_pos (by simpa using hbreak)] at hsuffix
    rw [hy, List.length_cons]
    omega

def lineText (folded : Bool) (e : LineEnd) (c : Cursor) : Text :=
  e.joint folded (c.rest.head?.any isSpacing) ++ (c.span fun y ↦ !isBreak y).1

theorem blockLines_succ (folded : Bool) (indent fuel : Nat) (e : LineEnd) (c : Cursor) :
    blockLines folded indent (fuel + 1) e c =
      if c.column != indent || c.rest.isEmpty then some ([], e, c)
      else (blockBreaks indent fuel 0 c.skipLine.readBreak.2).bind fun p ↦
        (blockLines folded indent fuel
          ⟨c.skipLine.readBreak.1, p.2.1, c.rest.head?.any isSpacing⟩ p.2.2).bind fun q ↦
            some (lineText folded e c ++ q.1, q.2.1, q.2.2) := rfl

theorem blockLines_of_margin (hm : ∀ y ∈ c.rest, isMargin y) (folded : Bool) (indent fuel : Nat)
    (e : LineEnd) : ∃ x e' d, blockLines folded indent fuel e c = some (x, e', d) ∧
      d.rest <:+ c.rest := by
  induction fuel generalizing c e with
  | zero => exact ⟨[], e, c, rfl, List.suffix_rfl⟩
  | succ fuel ih =>
    rw [blockLines_succ]
    split
    · exact ⟨[], e, c, rfl, List.suffix_rfl⟩
    · have hbroken := c.skipLine.readBreak_suffix.trans (c.skipWhile_suffix _)
      obtain ⟨_, others, d, hd, hsuffix⟩ :=
        blockBreaks_of_margin (fun y hy ↦ hm y (hbroken.subset hy)) indent fuel 0
      have hrest := hsuffix.trans hbroken
      obtain ⟨x, e', d', hd', hsuffix'⟩ := ih (fun y hy ↦ hm y (hrest.subset hy))
        ⟨c.skipLine.readBreak.1, others, c.rest.head?.any isSpacing⟩
      rw [hd, Option.bind_some, hd']
      exact ⟨_, e', d', rfl, hsuffix'.trans hrest⟩

/-- Where nothing is left of the part, it does not matter at which column the lines are to stand. -/
theorem blockLines_meets_of_nil (h : c.Follows f d) (hc : c.rest = []) (indent indent' : Nat)
    (e e' : LineEnd) : BlockMeets f c.rest (blockLines folded indent fuel e c)
      (blockLines folded indent' fuel' e' d) := by
  obtain ⟨x, _, d', hd', hsuffix⟩ := blockLines_of_margin (h.margin_of_nil hc) folded indent' fuel' e'
  have hend : blockLines folded indent fuel e c = some ([], e, c) := by
    cases fuel with
    | zero => rfl
    | succ fuel =>
      rw [blockLines_succ, hc, List.isEmpty_nil, Bool.or_true]
      rfl
  rw [hend, hd']
  exact .read (.beyond hc (hsuffix.trans (h.suffix_behind hc))) (absurd hc) List.suffix_rfl

theorem blockLines_meets (h : c.Follows f d) (he : c.rest ≠ [] → e = e')
    (hfuel : c.rest.length < fuel) (hfuel' : c.rest.length + f.behind.length < fuel') :
    BlockMeets f c.rest (blockLines folded indent fuel e c)
      (blockLines folded indent fuel' e' d) := by
  induction fuel generalizing fuel' c d e e' with
  | zero => exact absurd hfuel (Nat.not_lt_zero _)
  | succ fuel ih =>
    obtain ⟨fuel', rfl⟩ := Nat.exists_eq_add_one.2 (Nat.zero_lt_of_lt hfuel')
    by_cases hc : c.rest = []
    · exact blockLines_meets_of_nil h hc indent indent e e'
    · obtain rfl := he hc
      have hcolumn : d.column = c.column := by
        rw [h.eq_within hc]
        rfl
      rw [blockLines_succ, blockLines_succ, hcolumn, h.isEmpty_eq hc, h.head?_eq hc]
      split
      · exact .read h (fun _ ↦ ⟨rfl, rfl⟩) List.suffix_rfl
      · have hlength := c.readBreak_skipLine_length_lt hc
        have hbroken := c.skipLine.readBreak_suffix.trans (c.skipWhile_suffix _)
        refine BlockMeets.mono (.bind (blockBreaks_meets h.skipLine.readBreak (fun _ ↦ rfl)
          (by omega) (by omega)) fun hfollows same hrest ↦ ?_) hbroken
        have hle := hrest.length_le
        refine .bind (ih hfollows (fun hleft ↦ ?_) (by omega) (by omega)) fun hfollows' same' hrest' ↦
          .read hfollows' (fun hleft ↦ ?_) List.suffix_rfl
        · have hline := (hrest.trans c.skipLine.readBreak_suffix).ne_nil hleft
          rw [(same hleft).2, h.skipLine.readBreak_fst hline]
        · have hline := (hrest'.trans (hrest.trans c.skipLine.readBreak_suffix)).ne_nil
            hleft
          obtain ⟨rfl, rfl⟩ := same' hleft
          rw [lineText, lineText, h.head?_eq hc, h.span_fst_of_ne hline]
          exact ⟨rfl, rfl⟩

theorem readChomping_eq (c : Cursor) :
    readChomping c =
      if c.rest.head? == some '+' then some (.keep, c.skip 1)
      else if c.rest.head? == some '-' then some (.strip, c.skip 1)
      else none := by
  unfold readChomping
  split
  · rename_i hc
    rw [hc]
    rfl
  · rename_i hc
    rw [hc]
    rfl
  · rename_i hplus hminus
    cases hc : c.rest with
    | nil => rfl
    | cons y rest =>
      have hy : y ≠ '+' := fun h ↦ hplus rest (h ▸ hc)
      have hy' : y ≠ '-' := fun h ↦ hminus rest (h ▸ hc)
      rw [List.head?_cons, Option.some_beq_some, Option.some_beq_some, beq_false_of_ne hy,
        beq_false_of_ne hy']
      rfl

theorem readChomping_agrees (h : c.Follows f d) :
    Agrees f c.rest (readChomping c) (readChomping d) := by
  rw [readChomping_eq, readChomping_eq]
  refine rel_ite (h.head?_beq (by decide)) (fun hplus ↦ ?_) fun _ ↦ ?_
  · exact .read (h.skip_one (ne_nil_of_head?_beq hplus)) (c.skip_suffix 1)
  refine rel_ite (h.head?_beq (by decide)) (fun hminus ↦ ?_) fun _ ↦ .failed
  exact .read (h.skip_one (ne_nil_of_head?_beq hminus)) (c.skip_suffix 1)

theorem readIncrement_eq (c : Cursor) :
    readIncrement c =
      if c.rest.head? == some '0' then none
      else if c.rest.head?.any Char.isDigit then
        some (c.rest.head?.map fun y ↦ y.toNat - '0'.toNat, c.skip 1)
      else some (none, c) := by
  unfold readIncrement
  split
  · rename_i y rest hc
    rw [hc]
    rfl
  · rename_i hc
    rw [hc]
    rfl

theorem readIncrement_agrees (h : c.Follows f d) :
    Agrees f c.rest (readIncrement c) (readIncrement d) := by
  rw [readIncrement_eq, readIncrement_eq]
  refine rel_ite (h.head?_beq (by decide)) (fun _ ↦ .failed) fun _ ↦ ?_
  refine rel_ite (h.head?_any (not_of_isMargin (by rfl))) (fun hdigit ↦ ?_) fun _ ↦ ?_
  · have hne : c.rest ≠ [] := by
      rintro hnil
      rw [hnil] at hdigit
      cases hdigit
    rw [h.head?_eq hne]
    exact .read (h.skip_one hne) (c.skip_suffix 1)
  · exact .read h List.suffix_rfl

theorem readHeader_follows (h : c.Follows f d) :
    readHeader c = none ∧ readHeader d = none ∨
      ∃ chomping increment c' d', readHeader c = some (chomping, increment, c') ∧
        readHeader d = some (chomping, increment, d') ∧ c'.Follows f d' ∧ c'.rest <:+ c.rest := by
  have hchomping := readChomping_agrees h
  unfold readHeader
  generalize readChomping c = r at hchomping ⊢
  generalize readChomping d = s at hchomping ⊢
  cases hchomping with
  | @read c₁ d₁ chomping h₁ hrest =>
    dsimp only
    have hincrement := readIncrement_agrees h₁
    generalize readIncrement c₁ = r at hincrement ⊢
    generalize readIncrement d₁ = s at hincrement ⊢
    cases hincrement with
    | failed => exact .inl ⟨rfl, rfl⟩
    | read h₂ hrest' => exact .inr ⟨_, _, _, _, rfl, rfl, h₂, hrest'.trans hrest⟩
  | failed =>
    dsimp only
    have hincrement := readIncrement_agrees h
    generalize readIncrement c = r at hincrement ⊢
    generalize readIncrement d = s at hincrement ⊢
    cases hincrement with
    | failed => exact .inl ⟨rfl, rfl⟩
    | @read c₁ d₁ increment h₁ hrest =>
      have hlater := readChomping_agrees h₁
      rw [Option.bind_eq_bind, Option.bind_some, Option.bind_some]
      dsimp only
      generalize readChomping c₁ = r at hlater ⊢
      generalize readChomping d₁ = s at hlater ⊢
      cases hlater with
      | failed =>
        cases increment <;> exact .inr ⟨_, _, _, _, rfl, rfl, h₁, hrest⟩
      | read h₂ hrest' =>
        cases increment with
        | none => exact .inr ⟨_, _, _, _, rfl, rfl, h₁, hrest⟩
        | some n => exact .inr ⟨_, _, _, _, rfl, rfl, h₂, hrest'.trans hrest⟩

def Chomping.text (chomping : Chomping) (lines : Text) (e : LineEnd) : Text :=
  match chomping with
  | .strip => lines
  | .clip => lines ++ e.first
  | .keep => lines ++ e.first ++ e.others

def fixedIndent (parent : Int) : Option Nat → Nat
  | some n => (max parent 0).toNat + n
  | none => 0

/-- The column of the lines of a block scalar. Where the header does not give it, the first lines do. -/
def blockIndent (parent : Int) (fixed deepest : Nat) : Nat :=
  if fixed == 0 then max (max deepest (parent + 1).toNat) 1 else fixed

def blockBehind (folded : Bool) (parent : Int) (fuel : Nat) (chomping : Chomping) (fixed : Nat)
    (c : Cursor) : Option (Text × Cursor) :=
  (blockBreaks fixed fuel 0 c).bind fun p ↦
    (blockLines folded (blockIndent parent fixed p.1) fuel ⟨[], p.2.1, false⟩ p.2.2).bind fun q ↦
      some (chomping.text q.1 q.2.1, q.2.2)

theorem blockScalar_eq (folded : Bool) (parent : Int) (fuel : Nat) (c : Cursor) :
    blockScalar folded parent fuel c =
      (readHeader (c.skip 1)).bind fun p ↦
        if atLineEnd p.2.2.skipToLineEnd.rest then
          blockBehind folded parent fuel p.1 (fixedIndent parent p.2.1)
            p.2.2.skipToLineEnd.readBreak.2
        else none := by
  unfold blockScalar
  cases readHeader (c.skip 1) with
  | none => rfl
  | some p =>
    obtain ⟨chomping, increment, c'⟩ := p
    rw [Option.bind_eq_bind, Option.bind_some, Option.bind_some]
    dsimp only
    rw [guard_bind_eq_ite]
    refine if_congr Iff.rfl ?_ rfl
    cases increment <;> cases chomping <;> rfl

theorem blockBehind_meets {parent : Int} {chomping : Chomping} {fixed : Nat} (h : c.Follows f d)
    (hfuel : c.rest.length < fuel) (hfuel' : c.rest.length + f.behind.length < fuel') :
    Meets f c.rest (blockBehind folded parent fuel chomping fixed c)
      (blockBehind folded parent fuel' chomping fixed d) := by
  have hbreaks : BlockMeets f c.rest (blockBreaks fixed fuel 0 c) (blockBreaks fixed fuel' 0 d) :=
    blockBreaks_meets h (fun _ ↦ rfl) hfuel hfuel'
  unfold blockBehind
  generalize blockBreaks fixed fuel 0 c = r at hbreaks ⊢
  generalize blockBreaks fixed fuel' 0 d = s at hbreaks ⊢
  cases hbreaks with
  | failed => exact .failed
  | @read c₁ d₁ deepest deepest' breaks breaks' h₁ same hrest =>
    have hlines : BlockMeets f c₁.rest
        (blockLines folded (blockIndent parent fixed deepest) fuel ⟨[], breaks, false⟩ c₁)
        (blockLines folded (blockIndent parent fixed deepest') fuel' ⟨[], breaks', false⟩ d₁) := by
      have hle := hrest.length_le
      by_cases hne : c₁.rest = []
      · exact blockLines_meets_of_nil h₁ hne _ _ _ _
      · obtain ⟨rfl, rfl⟩ := same hne
        exact blockLines_meets h₁ (fun _ ↦ rfl) (by omega) (by omega)
    rw [Option.bind_some, Option.bind_some]
    dsimp only
    generalize blockLines folded _ fuel _ c₁ = r at hlines ⊢
    generalize blockLines folded _ fuel' _ d₁ = s at hlines ⊢
    cases hlines with
    | failed => exact .failed
    | read h₂ same' hrest' =>
      refine .read h₂ (fun hne ↦ ?_) (hrest'.trans hrest)
      obtain ⟨rfl, rfl⟩ := same' hne
      rfl

theorem blockScalar_meets {parent : Int} (h : c.Follows f d) (hne : c.rest ≠ [])
    (hfuel : c.rest.length < fuel) (hfuel' : c.rest.length + f.behind.length < fuel') :
    Meets f c.rest.tail (blockScalar folded parent fuel c) (blockScalar folded parent fuel' d) := by
  have hskip : (c.skip 1).rest = c.rest.tail := by rw [Cursor.skip_rest, List.drop_one]
  have hlength := List.length_tail (l := c.rest)
  rw [blockScalar_eq, blockScalar_eq]
  rcases readHeader_follows (h.skip_one hne) with
    ⟨hc, hd⟩ | ⟨chomping, increment, c', d', hc, hd, h', hrest⟩
  · rw [hc, hd]
    exact .failed
  · rw [hc, hd, Option.bind_some, Option.bind_some]
    rw [hskip] at hrest
    have hbroken := c'.skipToLineEnd.readBreak_suffix.trans (c'.skipToLineEnd_suffix.trans hrest)
    have hle := hbroken.length_le
    refine rel_ite h'.atLineEnd_skipToLineEnd (fun _ ↦ ?_) fun _ ↦ .failed
    exact (blockBehind_meets h'.skipToLineEnd.readBreak (by omega) (by omega)).mono hbroken

end TildeMerge.Yaml
