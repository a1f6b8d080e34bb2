import TildeMerge.Proofs.Yaml.FramedScalars

namespace TildeMerge.Yaml

open Number

variable {f : Frame} {c d : Cursor} {t u m : Text} {mark y : Char} {fuel fuel' count : Nat}

theorem foldlM_eq_none {α β : Type} {g : β → α → Option β} {l : List α} {a : α} (h : a ∈ l)
    (hg : ∀ b, g b a = none) (b : β) : l.foldlM g b = none := by
  induction l generalizing b with
  | nil => cases h
  | cons a' l ih =>
    rw [List.foldlM_cons]
    rcases List.mem_cons.1 h with rfl | h
    · rw [hg]
      rfl
    · cases g b a' with
      | none => rfl
      | some b => exact ih h b

theorem readDigits_of_not_digit (hy : hexValue y = none) (h : y ∈ t) (base : Nat) :
    readDigits base t = none := by
  unfold readDigits
  rw [guard_bind_eq_ite]
  split
  · exact foldlM_eq_none h (fun n ↦ by simp [hy]) 0
  · rfl

theorem hexValue_of_isMargin (hy : isMargin y) : hexValue y = none := by
  have hnone : ∀ y, isMargin y → (hexValue y).isSome = false := not_of_isMargin (by rfl)
  simpa using hnone y hy

def readHex (count : Nat) (t : Text) : Option Nat :=
  if (t.take count).length = count then readDigits 16 (t.take count) else none

theorem length_of_readHex {n : Nat} (h : readHex count t = some n) : count ≤ t.length := by
  unfold readHex at h
  split at h
  · rename_i hlength
    rw [List.length_take] at hlength
    omega
  · cases h

theorem readHex_append (hm : ∀ y ∈ m, isMargin y) (count : Nat) (t : Text) :
    readHex count (t ++ m) = readHex count t := by
  by_cases hcount : count ≤ t.length
  · rw [readHex, readHex, List.take_append_of_le_length hcount]
  · have hshort : readHex count t = none := by
      rw [readHex, if_neg]
      rw [List.length_take]
      omega
    rw [hshort, readHex]
    split
    · rename_i hlength
      -- The digits would reach into the margin.
      cases m with
      | nil =>
        rw [List.append_nil, List.length_take] at hlength
        omega
      | cons z m =>
        have hz : z ∈ (t ++ z :: m).take count := by
          rw [List.take_append]
          refine List.mem_append_right _ ?_
          obtain ⟨n, hn⟩ : ∃ n, count - t.length = n + 1 := ⟨count - t.length - 1, by omega⟩
          rw [hn]
          exact List.mem_cons_self
        exact readDigits_of_not_digit (hexValue_of_isMargin (hm z List.mem_cons_self)) hz 16
    · rfl

theorem readEscape_cons (y : Char) (t : Text) :
    readEscape (y :: t) = match codeLength y with
      | some count => (readHex count t).bind fun n ↦ (charOfCode n).map (·, count + 1)
      | none => (escapes.lookup y).map (·, 1) := by
  rw [readEscape]
  cases codeLength y with
  | none => rfl
  | some count =>
    change (guard (((t.take count).length == count) = true) >>= fun _ ↦
      readDigits 16 (t.take count) >>= fun n ↦ charOfCode n >>= fun y ↦ some (y, count + 1)) = _
    rw [guard_bind_eq_ite]
    dsimp only [readHex]
    by_cases hlength : (t.take count).length = count
    · rw [if_pos (beq_iff_eq.2 hlength), if_pos hlength]
      cases readDigits 16 (t.take count) with
      | none => rfl
      | some n => cases h : charOfCode n <;> simp [h]
    · rw [if_neg (fun h ↦ hlength (beq_iff_eq.1 h)), if_neg hlength]
      rfl

theorem readEscape_append (hm : ∀ y ∈ m, isMargin y) (ht : t ≠ []) :
    readEscape (t ++ m) = readEscape t := by
  obtain ⟨y, t, rfl⟩ := List.exists_cons_of_ne_nil ht
  rw [List.cons_append, readEscape_cons, readEscape_cons]
  cases codeLength y with
  | none => rfl
  | some count =>
    dsimp only
    rw [readHex_append hm]

theorem readEscape_length (h : readEscape t = some (y, count)) : count ≤ t.length := by
  cases t with
  | nil => cases h
  | cons z t =>
    rw [readEscape_cons] at h
    cases hcode : codeLength z with
    | none =>
      rw [hcode] at h
      obtain ⟨y', -, hy⟩ := Option.map_eq_some_iff.1 h
      obtain ⟨rfl, rfl⟩ := Prod.mk.inj hy
      exact Nat.succ_le_succ (Nat.zero_le _)
    | some digits =>
      rw [hcode] at h
      obtain ⟨n, hread, hn⟩ := Option.bind_eq_some_iff.1 h
      obtain ⟨y', -, hy⟩ := Option.map_eq_some_iff.1 hn
      obtain ⟨rfl, rfl⟩ := Prod.mk.inj hy
      exact Nat.succ_le_succ (length_of_readHex hread)

def quotedMore (mark : Char) (fuel : Nat) (y : Char) (c : Cursor) : Option (Text × Bool × Cursor) :=
  (quotedPiece mark fuel c).map fun p ↦ (y :: p.1, p.2)

def quotedEscape (mark : Char) (fuel : Nat) (c : Cursor) : Option (Text × Bool × Cursor) :=
  if c.rest.tail.head?.any isBreak then some ([], true, (c.skip 1).readBreak.2)
  else (readEscape c.rest.tail).bind fun p ↦ quotedMore mark fuel p.1 (c.skip (p.2 + 1))

theorem quotedPiece_nil (hc : c.rest = []) (mark : Char) (fuel : Nat) :
    quotedPiece mark fuel c = some ([], false, c) := by
  cases fuel with
  | zero => rfl
  | succ fuel =>
    rw [quotedPiece]
    dsimp only
    rw [hc]
    rfl

theorem quotedPiece_cons {rest : Text} (hc : c.rest = y :: rest) (mark : Char) (fuel : Nat) :
    quotedPiece mark (fuel + 1) c =
      if isBreak y || isSpacing y then some ([], false, c)
      else if mark == '\'' && y == '\'' && rest.head? == some '\'' then
        quotedMore mark fuel '\'' (c.skip 2)
      else if y == mark then some ([], false, c)
      else if mark == '"' && y == '\\' then quotedEscape mark fuel c
      else quotedMore mark fuel y (c.skip 1) := by
  rw [quotedPiece, quotedEscape]
  dsimp only
  rw [hc, List.tail_cons]
  refine if_congr Iff.rfl rfl (if_congr Iff.rfl ?_ (if_congr Iff.rfl rfl
    (if_congr Iff.rfl (if_congr Iff.rfl rfl ?_) ?_)))
  · rw [quotedMore]
    cases quotedPiece mark fuel (c.skip 2) <;> rfl
  · cases readEscape rest with
    | none => rfl
    | some p =>
      rw [Option.bind_some, quotedMore]
      cases h : quotedPiece mark fuel (c.skip (p.2 + 1)) <;> simp [h]
  · rw [quotedMore]
    cases quotedPiece mark fuel (c.skip 1) <;> rfl

theorem quotedPiece_of_margin (hm : ∀ y ∈ c.rest, isMargin y) (mark : Char) (fuel : Nat) :
    quotedPiece mark fuel c = some ([], false, c) := by
  cases hc : c.rest with
  | nil => exact quotedPiece_nil hc mark fuel
  | cons y rest =>
    cases fuel with
    | zero => rfl
    | succ fuel =>
      have hy := isSpacing_or_isBreak_of_isMargin (hm y (by rw [hc]; exact List.mem_cons_self))
      rw [quotedPiece_cons hc, if_pos (by simpa [or_comm] using hy)]

/-- How a reader of a piece and the one that follows it end. A backslash that is cut off at the end of the
part hides a character of the margin in the whole. -/
inductive PieceMeets (f : Frame) (mark : Char) (t : Text) :
    Option (Text × Bool × Cursor) → Option (Text × Bool × Cursor) → Prop where
  | failed : PieceMeets f mark t none none
  | lost {p : Text × Bool × Cursor} (hd : p.2.2.rest <:+ f.behind) : PieceMeets f mark t none (some p)
  | read {c d : Cursor} {x : Text} {hidden : Bool} (h : c.Follows f d) (hc : c.rest <:+ t)
    (hhidden : hidden → c.rest <:+ t.tail)
    (hend : hidden = false → atGap c.rest ∨ (c.rest.head? == some mark)) :
    PieceMeets f mark t (some (x, hidden, c)) (some (x, hidden, d))

theorem PieceMeets.more {r s : Option (Text × Bool × Cursor)} (h : PieceMeets f mark t r s)
    (htu : t <:+ u) (y : Char) :
    PieceMeets f mark u (r.map fun p ↦ (y :: p.1, p.2)) (s.map fun p ↦ (y :: p.1, p.2)) := by
  cases h with
  | failed => exact .failed
  | lost hd => exact .lost hd
  | read h hc hhidden hend =>
    exact .read h (hc.trans htu) (fun hh ↦ (hhidden hh).trans (tail_suffix_tail htu)) hend

theorem PieceMeets.stop (h : c.Follows f d) (hend : atGap c.rest ∨ (c.rest.head? == some mark)) :
    PieceMeets f mark c.rest (some ([], false, c)) (some ([], false, d)) :=
  .read h List.suffix_rfl (absurd · Bool.false_ne_true) fun _ ↦ hend

theorem quotedEscape_of_cut (hm : ∀ y ∈ c.rest.tail, isMargin y) (hbehind : c.rest.tail <:+ f.behind)
    (mark : Char) (fuel : Nat) : PieceMeets f mark t none (quotedEscape mark fuel c) := by
  unfold quotedEscape
  split
  · have hsuffix := (c.skip 1).readBreak_suffix
    rw [Cursor.skip_rest, List.drop_one] at hsuffix
    exact .lost (hsuffix.trans hbehind)
  · cases readEscape c.rest.tail with
    | none => exact .failed
    | some p =>
      have hsuffix : (c.skip (p.2 + 1)).rest <:+ c.rest.tail := by
        rw [Cursor.skip_rest, ← List.drop_tail]
        exact List.drop_suffix _ _
      rw [Option.bind_some, quotedMore, quotedPiece_of_margin fun y hy ↦ hm y (hsuffix.subset hy)]
      exact .lost (hsuffix.trans hbehind)

theorem quotedEscape_meets (h : c.Follows f d) (hc : c.rest ≠ [])
    (hmore : ∀ z {n : Nat}, 0 < n → n ≤ c.rest.length →
      PieceMeets f mark c.rest (quotedMore mark fuel z (c.skip n)) (quotedMore mark fuel' z (d.skip n))) :
    PieceMeets f mark c.rest (quotedEscape mark fuel c) (quotedEscape mark fuel' d) := by
  obtain rfl := h.eq_within hc
  have htail : (c.within f).rest.tail = c.rest.tail ++ f.behind := List.tail_append_of_ne_nil hc
  by_cases hrest : c.rest.tail = []
  · have hnone : quotedEscape mark fuel c = none := by
      rw [quotedEscape, hrest]
      rfl
    rw [hrest, List.nil_append] at htail
    rw [hnone]
    exact quotedEscape_of_cut (htail ▸ f.margin) (htail ▸ List.suffix_rfl) mark fuel'
  · have hhead : (c.rest.tail ++ f.behind).head? = c.rest.tail.head? := by
      obtain ⟨z, more, hz⟩ := List.exists_cons_of_ne_nil hrest
      rw [hz]
      rfl
    unfold quotedEscape
    rw [htail, hhead, readEscape_append f.margin hrest]
    refine rel_ite rfl (fun _ ↦ ?_) fun _ ↦ ?_
    · have hsuffix := (c.skip 1).readBreak_suffix
      rw [Cursor.skip_rest, List.drop_one] at hsuffix
      exact .read (h.skip_one hc).readBreak (hsuffix.trans (List.tail_suffix _)) (fun _ ↦ hsuffix)
        (absurd · Bool.false_ne_true.symm)
    · cases hescape : readEscape c.rest.tail with
      | none => exact .failed
      | some p =>
        have hlength := readEscape_length hescape
        refine hmore p.1 (Nat.succ_pos p.2) ?_
        rw [List.length_tail] at hlength
        have hpos := List.length_pos_iff.2 hc
        omega

theorem quotedPiece_meets_of_nil (h : c.Follows f d) (hc : c.rest = []) (mark : Char)
    (fuel fuel' : Nat) :
    PieceMeets f mark c.rest (quotedPiece mark fuel c) (quotedPiece mark fuel' d) := by
  rw [quotedPiece_nil hc, quotedPiece_of_margin (h.margin_of_nil hc)]
  refine .stop h (.inl ?_)
  rw [hc]
  rfl

theorem quotedPiece_meets (mark : Char) (h : c.Follows f d)
    (hfuel : c.rest.length ≤ fuel) (hfuel' : c.rest.length + f.behind.length ≤ fuel') :
    PieceMeets f mark c.rest (quotedPiece mark fuel c) (quotedPiece mark fuel' d) := by
  induction fuel generalizing fuel' c d with
  | zero => exact quotedPiece_meets_of_nil h (List.length_eq_zero_iff.1 (Nat.le_zero.1 hfuel)) _ _ _
  | succ fuel ih =>
    by_cases hnil : c.rest = []
    · exact quotedPiece_meets_of_nil h hnil mark _ _
    · obtain ⟨y, rest, hc⟩ := List.exists_cons_of_ne_nil hnil
      have hd : d.rest = y :: (rest ++ f.behind) := by
        rw [h.eq_within hnil, Cursor.within, hc]
        rfl
      obtain ⟨fuel', rfl⟩ : ∃ k, fuel' = k + 1 :=
        Nat.exists_eq_add_one.2 ((Nat.add_pos_left (List.length_pos_iff.2 hnil) _).trans_le hfuel')
      have hmore (z : Char) {n : Nat} (hn : 0 < n) (hle : n ≤ c.rest.length) :
          PieceMeets f mark c.rest (quotedMore mark fuel z (c.skip n))
            (quotedMore mark fuel' z (d.skip n)) := by
        have hlength : (c.skip n).rest.length = c.rest.length - n := by
          rw [Cursor.skip_rest, List.length_drop]
        refine (ih (h.skip hle) ?_ ?_).more (c.skip_suffix n) z
        · omega
        · omega
      rw [quotedPiece_cons hc, quotedPiece_cons hd, head?_beq_append f.margin (by decide)]
      -- A gap ends the piece.
      refine rel_ite rfl (fun hgap ↦ .stop h (.inl (by rw [hc]; exact hgap))) fun _ ↦ ?_
      -- A doubled mark stands for one.
      refine rel_ite rfl (fun hdouble ↦ hmore _ Nat.two_pos ?_) fun _ ↦ ?_
      · cases rest with
        | nil => simp at hdouble
        | cons z rest => simp [hc]
      -- The mark ends the piece.
      refine rel_ite rfl (fun hy ↦ .stop h (.inr (by rw [hc, beq_iff_eq.1 hy]; simp))) fun _ ↦ ?_
      refine rel_ite rfl (fun _ ↦ quotedEscape_meets h hnil hmore) fun _ ↦ ?_
      exact hmore y Nat.one_pos (List.length_pos_iff.2 hnil)

/-- The gap behind a piece. The line break that a backslash hides is no part of it. -/
def quotedGap (fuel : Nat) (hidden : Bool) (c : Cursor) : Option (Gap × Cursor) :=
  if hidden then (Gap.emptyLines 0 fuel c).map fun p ↦ (.breaks [] p.1, p.2) else Gap.read 0 fuel c

def quotedBehind (mark : Char) (fuel : Nat) (x : Text) (hidden : Bool) (c : Cursor) :
    Option (Text × Cursor) :=
  if c.rest.head? == some mark then some (x, c.skip 1)
  else (quotedGap fuel hidden c).bind fun g ↦
    (quotedFrom mark fuel g.2).map fun q ↦ (x ++ g.1.text ++ q.1, q.2)

theorem quotedFrom_succ (mark : Char) (fuel : Nat) (c : Cursor) :
    quotedFrom mark (fuel + 1) c =
      if !c.atMarker && !c.rest.isEmpty then
        (quotedPiece mark fuel c).bind fun p ↦ quotedBehind mark fuel p.1 p.2.1 p.2.2
      else none := by
  rw [quotedFrom, guard_bind_eq_ite]
  refine if_congr Iff.rfl ?_ rfl
  cases quotedPiece mark fuel c with
  | none => rfl
  | some p =>
    obtain ⟨x, hidden, c'⟩ := p
    refine if_congr Iff.rfl rfl ?_
    cases hidden with
    | true =>
      change (Gap.emptyLines 0 fuel c' >>= _) = _
      rw [quotedGap, if_pos rfl]
      cases Gap.emptyLines 0 fuel c' with
      | none => rfl
      | some g => cases h : quotedFrom mark fuel g.2 <;> simp [h]
    | false =>
      change (Gap.read 0 fuel c' >>= _) = _
      rw [quotedGap, if_neg Bool.false_ne_true]
      cases Gap.read 0 fuel c' with
      | none => rfl
      | some g => cases h : quotedFrom mark fuel g.2 <;> simp [h]

theorem quotedGap_of_margin (hm : ∀ y ∈ c.rest, isMargin y) (fuel : Nat) (hidden : Bool) :
    ∃ gap e, quotedGap fuel hidden c = some (gap, e) ∧ e.rest <:+ c.rest := by
  unfold quotedGap
  split
  · obtain ⟨others, e, he, hsuffix⟩ := Gap.emptyLines_of_margin hm 0 fuel
    rw [he]
    exact ⟨_, e, rfl, hsuffix⟩
  · exact Gap.read_of_margin hm 0 fuel

theorem quotedBehind_of_margin (hmark : isMargin mark = false) (hm : ∀ y ∈ c.rest, isMargin y)
    (hfrom : ∀ {e : Cursor}, (∀ y ∈ e.rest, isMargin y) → quotedFrom mark fuel e = none)
    (x : Text) (hidden : Bool) : quotedBehind mark fuel x hidden c = none := by
  obtain ⟨gap, e, he, hsuffix⟩ := quotedGap_of_margin hm fuel hidden
  have hopen := head?_beq_append hm hmark []
  rw [List.nil_append] at hopen
  rw [quotedBehind, hopen, he]
  simp [hfrom fun y hy ↦ hm y (hsuffix.subset hy)]

theorem quotedFrom_of_margin (hmark : isMargin mark = false) (hm : ∀ y ∈ c.rest, isMargin y)
    (fuel : Nat) : quotedFrom mark fuel c = none := by
  induction fuel generalizing c with
  | zero => rfl
  | succ fuel ih =>
    rw [quotedFrom_succ]
    split
    · rw [quotedPiece_of_margin hm, Option.bind_some]
      exact quotedBehind_of_margin hmark hm ih [] false
    · rfl

theorem quotedGap_meets (h : c.Follows f d) {hidden : Bool} (hgap : hidden = false → atGap c.rest)
    (hhidden : hidden → c.rest <:+ u) (hshown : hidden = false → c.rest.tail <:+ u)
    (hfuel : c.rest.length ≤ fuel) (hfuel' : c.rest.length + f.behind.length ≤ fuel')
    (hlength : hidden → c.rest.length < fuel ∧ c.rest.length + f.behind.length < fuel') :
    Meets f u (quotedGap fuel hidden c) (quotedGap fuel' hidden d) := by
  cases hidden with
  | true =>
    obtain ⟨hlt, hlt'⟩ := hlength rfl
    exact ((Gap.emptyLines_meets h hlt hlt').mono (hhidden rfl)).map rfl
  | false => exact (Gap.read_meets h (hgap rfl) hfuel hfuel').mono (hshown rfl)

/-- Behind a piece: the closing mark, or a gap that takes at least one character of the rest of the text
and the scalar behind it. -/
theorem quotedBehind_agrees (hmark : isMargin mark = false) (h : c.Follows f d) {hidden : Bool} (x : Text)
    (hc : c.rest <:+ t) (hhidden : hidden → c.rest <:+ t.tail)
    (hend : hidden = false → atGap c.rest ∨ (c.rest.head? == some mark)) (ht : t ≠ [])
    (hfuel : t.length ≤ fuel) (hfuel' : t.length + f.behind.length ≤ fuel')
    (hfrom : ∀ {e e' : Cursor}, e.Follows f e' → e.rest.length < t.length →
      Agrees f e.rest (quotedFrom mark fuel e) (quotedFrom mark fuel' e')) :
    Agrees f t (quotedBehind mark fuel x hidden c) (quotedBehind mark fuel' x hidden d) := by
  have hle := hc.length_le
  have htail : t.tail.length < t.length := by
    rw [List.length_tail]
    exact Nat.sub_lt (List.length_pos_iff.2 ht) Nat.one_pos
  refine rel_ite (h.head?_beq hmark) (fun hclosed ↦ ?_) fun hopen ↦ ?_
  · exact .read (h.skip_one (ne_nil_of_head?_beq hclosed)) ((c.skip_suffix 1).trans hc)
  · have hgap : Meets f t.tail (quotedGap fuel hidden c) (quotedGap fuel' hidden d) := by
      refine quotedGap_meets h (fun hshown ↦ ?_) hhidden (fun _ ↦ tail_suffix_tail hc) (by omega)
        (by omega) fun hh ↦ ?_
      · exact (hend hshown).resolve_right (Bool.eq_false_iff.1 hopen)
      · have hlength := (hhidden hh).length_le
        exact ⟨by omega, by omega⟩
    generalize quotedGap fuel hidden c = r at hgap ⊢
    generalize quotedGap fuel' hidden d = s at hgap ⊢
    cases hgap with
    | failed => exact .failed
    | @read e e' gap gap' hbehind same hrest =>
      rw [Option.bind_some, Option.bind_some]
      dsimp only
      by_cases he : e.rest = []
      · rw [quotedFrom_of_margin hmark (margin_of_nil he),
          quotedFrom_of_margin hmark (hbehind.margin_of_nil he)]
        exact .failed
      · rw [same he]
        exact ((hfrom hbehind (hrest.length_le.trans_lt htail)).mono
          (hrest.trans (List.tail_suffix _))).map _

theorem quotedFrom_agrees (hmark : isMargin mark = false) (h : c.Follows f d)
    (hfuel : c.rest.length < fuel) (hfuel' : c.rest.length + f.behind.length < fuel') :
    Agrees f c.rest (quotedFrom mark fuel c) (quotedFrom mark fuel' d) := by
  induction fuel generalizing fuel' c d with
  | zero => exact absurd hfuel (Nat.not_lt_zero _)
  | succ fuel ih =>
    obtain ⟨fuel', rfl⟩ := Nat.exists_eq_add_one.2 (Nat.zero_lt_of_lt hfuel')
    by_cases hc : c.rest = []
    · rw [quotedFrom_of_margin hmark (margin_of_nil hc),
        quotedFrom_of_margin hmark (h.margin_of_nil hc)]
      exact .failed
    · have hpiece := quotedPiece_meets mark h (Nat.le_of_lt_succ hfuel) (Nat.le_of_lt_succ hfuel')
      rw [quotedFrom_succ, quotedFrom_succ, h.atMarker, h.isEmpty_eq hc]
      refine rel_ite rfl (fun _ ↦ ?_) fun _ ↦ .failed
      generalize quotedPiece mark fuel c = r at hpiece ⊢
      generalize quotedPiece mark fuel' d = s at hpiece ⊢
      cases hpiece with
      | failed => exact .failed
      | lost hlost =>
        rw [Option.bind_some, quotedBehind_of_margin hmark (fun y hy ↦ f.margin y (hlost.subset hy))
          (quotedFrom_of_margin hmark · fuel')]
        exact .failed
      | read hfollows hsuffix hhidden hend =>
        exact quotedBehind_agrees hmark hfollows _ hsuffix hhidden hend hc (Nat.le_of_lt_succ hfuel)
          (Nat.le_of_lt_succ hfuel') fun he hlt ↦ ih he (by omega) (by omega)

theorem quotedScalar_agrees (hmark : isMargin mark = false) (h : c.Follows f d) (hc : c.rest ≠ [])
    (hfuel : c.rest.length < fuel) (hfuel' : c.rest.length + f.behind.length < fuel') :
    Agrees f c.rest.tail (quotedScalar mark fuel c) (quotedScalar mark fuel' d) := by
  have hle := (c.skip_suffix 1).length_le
  have hread := quotedFrom_agrees hmark (h.skip_one hc) (hle.trans_lt hfuel)
    ((Nat.add_le_add_right hle _).trans_lt hfuel')
  rw [Cursor.skip_rest, List.drop_one] at hread
  exact hread

end TildeMerge.Yaml
