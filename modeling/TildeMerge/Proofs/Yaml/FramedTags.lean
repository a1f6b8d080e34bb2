import TildeMerge.Proofs.Yaml.FramedQuotes
import TildeMerge.Yaml.Lexer

namespace TildeMerge.Yaml

open Number

namespace Agrees

variable {α β : Type} {f : Frame} {t u : Text} {r s : Option (α × Cursor)}

theorem bind {g k : α × Cursor → Option (β × Cursor)} (h : Agrees f t r s)
    (hg : ∀ x {c d : Cursor}, c.Follows f d → c.rest <:+ t → Agrees f u (g (x, c)) (k (x, d))) :
    Agrees f u (r >>= g) (s >>= k) := by
  cases h with
  | failed => exact .failed
  | read h hc => exact hg _ h hc

theorem guard {p q : Bool} (hpq : q = p) (h : p → Agrees f t r s) :
    Agrees f t (guard (p = true) >>= fun _ ↦ r) (guard (q = true) >>= fun _ ↦ s) := by
  subst hpq
  rw [guard_bind_eq_ite, guard_bind_eq_ite]
  split
  · rename_i hp
    exact h hp
  · exact .failed

end Agrees

namespace Lexer

variable {f : Frame} {c d : Cursor} {t u m : Text} {fuel fuel' owed : Nat} {verbatim : Bool}

theorem isNameChar_of_isMargin : ∀ y, isMargin y → isNameChar y = false :=
  not_of_isMargin (by rfl)

theorem isUriChar_of_isMargin (verbatim : Bool) : ∀ y, isMargin y → isUriChar verbatim y = false := by
  cases verbatim with
  | false => exact not_of_isMargin (by rfl)
  | true => exact not_of_isMargin (by rfl)

theorem readVersionNumber_agrees (h : c.Follows f d) :
    Agrees f c.rest (readVersionNumber c) (readVersionNumber d) := by
  obtain ⟨digits, c', d', hc, hd, hfollows, hsuffix⟩ := h.exists_span (p := Char.isDigit)
    (not_of_isMargin (by rfl))
  unfold readVersionNumber
  rw [hc, hd]
  exact .guard rfl fun _ ↦ .read hfollows hsuffix

theorem suffix_tail_of_skip (h : t <:+ (c.skip 1).rest) : t <:+ c.rest.tail := by
  rwa [Cursor.skip_rest, List.drop_one] at h

theorem readName_agrees (h : c.Follows f d) (hne : c.rest ≠ []) :
    Agrees f c.rest.tail (readName c) (readName d) := by
  obtain ⟨name, c', d', hc, hd, hfollows, hsuffix⟩ :=
    (h.skip_one hne).exists_span isNameChar_of_isMargin
  unfold readName
  rw [hc, hd]
  refine .guard ?_ fun _ ↦ .read hfollows (suffix_tail_of_skip hsuffix)
  rw [hfollows.atGap, hfollows.head?_any (not_of_isMargin (by rfl))]

theorem readHandle_agrees (h : c.Follows f d) (inDirective : Bool) :
    Agrees f c.rest.tail (readHandle inDirective c) (readHandle inDirective d) := by
  unfold readHandle
  refine .guard (h.head?_beq (by decide)) fun hmark ↦ ?_
  obtain ⟨name, c', d', hc, hd, hfollows, hsuffix⟩ :=
    (h.skip_one (ne_nil_of_head?_beq hmark)).exists_span isNameChar_of_isMargin
  have htail := suffix_tail_of_skip hsuffix
  rw [hc, hd]
  dsimp only
  rw [hfollows.head?_beq (by decide)]
  split
  · rename_i hclosed
    exact .read (hfollows.skip_one (ne_nil_of_head?_beq hclosed)) ((c'.skip_suffix 1).trans htail)
  · exact .guard rfl fun _ ↦ .read hfollows htail

theorem readUri_percent {rest : Text} (hc : c.rest = '%' :: rest) (verbatim : Bool) (fuel owed : Nat) :
    readUri verbatim (fuel + 1) owed c =
      (readHex 2 rest).bind fun byte ↦
        (if owed == 0 then (utf8Length byte).map (· - 1)
          else if byte / 0x40 == 2 then some (owed - 1) else none).bind fun owed ↦
            (readUri verbatim fuel owed (c.skip 3)).map fun p ↦ (UInt8.ofNat byte :: p.1, p.2) := by
  rw [readUri, hc]
  change (guard (((rest.take 2).length == 2) = true) >>= fun _ ↦
    readDigits 16 (rest.take 2) >>= fun byte ↦ _) = _
  rw [guard_bind_eq_ite, readHex]
  by_cases hlength : (rest.take 2).length = 2
  · rw [if_pos (beq_iff_eq.2 hlength), if_pos hlength]
    cases readDigits 16 (rest.take 2) with
    | none => rfl
    | some byte =>
      rw [Option.bind_eq_bind, Option.bind_some, Option.bind_some]
      split
      · cases utf8Length byte with
        | none => rfl
        | some length => cases h : readUri verbatim fuel (length - 1) (c.skip 3) <;> simp [h]
      · split
        · cases h : readUri verbatim fuel (owed - 1) (c.skip 3) <;> simp [h]
        · rfl
  · rw [if_neg fun h ↦ hlength (beq_iff_eq.1 h), if_neg hlength]
    rfl

theorem readUri_cons {y : Char} {rest : Text} (hc : c.rest = y :: rest) (hy : y ≠ '%') (verbatim : Bool)
    (fuel owed : Nat) :
    readUri verbatim (fuel + 1) owed c =
      if owed == 0 then
        if isUriChar verbatim y then
          (readUri verbatim fuel 0 (c.skip 1)).map fun p ↦ (Utf8.encode [y] ++ p.1, p.2)
        else some ([], c)
      else none := by
  rw [readUri, hc]
  split
  · rename_i heq
    exact absurd (List.cons.inj heq).1 hy
  · rename_i heq
    obtain ⟨rfl, rfl⟩ := List.cons.inj heq
    rw [guard_bind_eq_ite]
    refine if_congr Iff.rfl (if_congr Iff.rfl ?_ rfl) rfl
    cases readUri verbatim fuel 0 (c.skip 1) <;> rfl
  · rename_i heq
    cases heq

theorem readUri_of_margin (hm : ∀ y ∈ c.rest, isMargin y) (verbatim : Bool) (fuel owed : Nat) :
    readUri verbatim (fuel + 1) owed c = if owed == 0 then some ([], c) else none := by
  cases hc : c.rest with
  | nil =>
    rw [readUri, hc]
    exact guard_bind_eq_ite _
  | cons y rest =>
    have hy : isMargin y := hm y (by rw [hc]; exact List.mem_cons_self)
    have hpercent : y ≠ '%' := by
      rintro rfl
      exact absurd hy (by decide)
    rw [readUri_cons hc hpercent, isUriChar_of_isMargin verbatim y hy]
    rfl

theorem readUri_agrees (h : c.Follows f d) (verbatim : Bool) (owed : Nat)
    (hfuel : c.rest.length < fuel) (hfuel' : c.rest.length + f.behind.length < fuel') :
    Agrees f c.rest (readUri verbatim fuel owed c) (readUri verbatim fuel' owed d) := by
  induction fuel generalizing fuel' owed c d with
  | zero => exact absurd hfuel (Nat.not_lt_zero _)
  | succ fuel ih =>
    obtain ⟨fuel', rfl⟩ := Nat.exists_eq_add_one.2 (Nat.zero_lt_of_lt hfuel')
    by_cases hnil : c.rest = []
    · rw [readUri_of_margin (margin_of_nil hnil), readUri_of_margin (h.margin_of_nil hnil)]
      split
      · exact .read h List.suffix_rfl
      · exact .failed
    · obtain ⟨y, rest, hc⟩ := List.exists_cons_of_ne_nil hnil
      have hd : d.rest = y :: (rest ++ f.behind) := by
        rw [h.eq_within hnil, Cursor.within, hc]
        rfl
      have hmore (owed : Nat) {n : Nat} (hn : 0 < n) (hle : n ≤ c.rest.length) :
          Agrees f c.rest (readUri verbatim fuel owed (c.skip n))
            (readUri verbatim fuel' owed (d.skip n)) := by
        have hlength : (c.skip n).rest.length = c.rest.length - n := by
          rw [Cursor.skip_rest, List.length_drop]
        refine (ih (h.skip hle) owed ?_ ?_).mono (c.skip_suffix n)
        · omega
        · omega
      by_cases hy : y = '%'
      · subst hy
        rw [readUri_percent hc, readUri_percent hd, readHex_append f.margin]
        cases hbyte : readHex 2 rest with
        | none => exact .failed
        | some byte =>
          have hlength := length_of_readHex hbyte
          rw [Option.bind_some, Option.bind_some]
          generalize (if owed == 0 then (utf8Length byte).map (· - 1)
            else if byte / 0x40 == 2 then some (owed - 1) else none) = next
          cases next with
          | none => exact .failed
          | some next =>
            refine (hmore next (n := 3) (by decide) ?_).map _
            rw [hc, List.length_cons]
            omega
      · rw [readUri_cons hc hy, readUri_cons hd hy]
        split
        · split
          · exact (hmore 0 Nat.one_pos (List.length_pos_iff.2 hnil)).map _
          · exact .read h List.suffix_rfl
        · exact .failed

theorem offset_lt_skip (hne : c.rest ≠ []) (n : Nat) : c.offset < (c.skip (n + 1)).offset := by
  obtain ⟨y, rest, hc⟩ := List.exists_cons_of_ne_nil hne
  change c.offset < c.offset + Text.size (c.rest.take (n + 1))
  have hy := Char.utf8Size_pos y
  rw [hc, List.take_succ_cons, Text.size_cons]
  omega

theorem encode_append_ne_nil (y : Char) (bytes : Bytes) : Utf8.encode [y] ++ bytes ≠ [] := by
  have hencode : Utf8.encode [y] = String.utf8EncodeChar y := List.append_nil _
  have hlength := String.length_utf8EncodeChar y
  have hy := Char.utf8Size_pos y
  rw [hencode]
  intro hnil
  rw [List.append_eq_nil_iff.1 hnil |>.1] at hlength
  exact absurd hlength hy.ne

/-- The bytes of a tag tell whether the cursor has moved. -/
theorem readUri_offset {bytes : Bytes} {e : Cursor} (h : readUri verbatim fuel owed c = some (bytes, e)) :
    c.offset ≤ e.offset ∧ (c.offset < e.offset ↔ bytes ≠ []) := by
  induction fuel generalizing owed bytes c with
  | zero =>
    obtain ⟨rfl, rfl⟩ := Prod.mk.inj (Option.some.inj h)
    simp
  | succ fuel ih =>
    have hmoved {n owed : Nat} {more : Bytes} (hne : c.rest ≠ [])
        (hmore : readUri verbatim fuel owed (c.skip (n + 1)) = some (more, e)) :
        c.offset < e.offset := (offset_lt_skip hne n).trans_le (ih hmore).1
    by_cases hnil : c.rest = []
    · rw [readUri_of_margin (margin_of_nil hnil)] at h
      obtain ⟨-, h⟩ := Option.ite_none_right_eq_some.1 h
      obtain ⟨rfl, rfl⟩ := Prod.mk.inj (Option.some.inj h)
      simp
    · obtain ⟨y, rest, hc⟩ := List.exists_cons_of_ne_nil hnil
      by_cases hy : y = '%'
      · subst hy
        rw [readUri_percent hc] at h
        obtain ⟨byte, -, h⟩ := Option.bind_eq_some_iff.1 h
        obtain ⟨next, -, h⟩ := Option.bind_eq_some_iff.1 h
        obtain ⟨p, hmore, h⟩ := Option.map_eq_some_iff.1 h
        obtain ⟨rfl, rfl⟩ := Prod.mk.inj h
        have hlt := hmoved hnil hmore
        exact ⟨hlt.le, iff_of_true hlt (List.cons_ne_nil _ _)⟩
      · rw [readUri_cons hc hy] at h
        obtain ⟨-, h⟩ := Option.ite_none_right_eq_some.1 h
        split at h
        · obtain ⟨p, hmore, h⟩ := Option.map_eq_some_iff.1 h
          obtain ⟨rfl, rfl⟩ := Prod.mk.inj h
          have hlt := hmoved hnil hmore
          exact ⟨hlt.le, iff_of_true hlt (encode_append_ne_nil y p.1)⟩
        · obtain ⟨rfl, rfl⟩ := Prod.mk.inj (Option.some.inj h)
          simp

theorem readSuffix_eq (verbatim : Bool) (fuel : Nat) (c : Cursor) :
    readSuffix verbatim fuel c =
      (readUri verbatim fuel 0 c).bind fun p ↦ if p.1 ≠ [] then some (upToZero p.1, p.2) else none := by
  change (readUri verbatim fuel 0 c).bind (fun p ↦ guard (c.offset < p.2.offset) >>= fun _ ↦
    some (upToZero p.1, p.2)) = _
  refine Option.bind_congr fun p hp ↦ ?_
  rw [guard_bind_eq_ite]
  exact if_congr (readUri_offset hp).2 rfl rfl

theorem readSuffix_of_margin (hm : ∀ y ∈ c.rest, isMargin y) (verbatim : Bool) (fuel : Nat) :
    readSuffix verbatim fuel c = none := by
  rw [readSuffix_eq]
  cases fuel with
  | zero => rfl
  | succ fuel =>
    rw [readUri_of_margin hm]
    rfl

theorem readSuffix_agrees (h : c.Follows f d) (verbatim : Bool) (hfuel : c.rest.length < fuel)
    (hfuel' : c.rest.length + f.behind.length < fuel') :
    Agrees f c.rest (readSuffix verbatim fuel c) (readSuffix verbatim fuel' d) := by
  rw [readSuffix_eq, readSuffix_eq]
  refine (readUri_agrees h verbatim 0 hfuel hfuel').bind fun bytes e e' hfollows hsuffix ↦ ?_
  dsimp only
  split
  · exact .read hfollows hsuffix
  · exact .failed

def tagEnds (inFlow : Bool) (c : Cursor) : Bool :=
  atGap c.rest || (inFlow && c.rest.head? == some ',')

theorem tagEnds_of_follows (h : c.Follows f d) (inFlow : Bool) :
    tagEnds inFlow d = tagEnds inFlow c := by
  rw [tagEnds, tagEnds, h.atGap, h.head?_beq (by decide)]

theorem readTag_agrees (h : c.Follows f d) (hne : c.rest ≠ []) (inFlow : Bool)
    (hfuel : c.rest.length < fuel) (hfuel' : c.rest.length + f.behind.length < fuel') :
    Agrees f c.rest.tail (readTag inFlow fuel c) (readTag inFlow fuel' d) := by
  have hmore {e : Cursor} (hsuffix : e.rest <:+ c.rest.tail) :
      e.rest.length < fuel ∧ e.rest.length + f.behind.length < fuel' := by
    have hle := (hsuffix.trans c.rest.tail_suffix).length_le
    omega
  have hsecond : ((d.rest.drop 1).head? == some '<') = ((c.rest.drop 1).head? == some '<') :=
    (h.skip_one hne).head?_beq (by decide)
  refine rel_ite hsecond (fun hbracket ↦ ?_) fun _ ↦ ?_
  · have htwo : 2 ≤ c.rest.length := by
      obtain ⟨y, rest, hc⟩ := List.exists_cons_of_ne_nil hne
      cases rest with
      | nil =>
        rw [hc] at hbracket
        cases hbracket
      | cons z rest => simp [hc]
    have hskip : (c.skip 2).rest <:+ c.rest.tail := by
      rw [Cursor.skip_rest, ← List.drop_tail]
      exact List.drop_suffix 1 _
    refine ((readSuffix_agrees (h.skip htwo) true (hmore hskip).1 (hmore hskip).2).mono
      hskip).bind fun suffix e e' hfollows hsuffix ↦ ?_
    refine .guard (hfollows.head?_beq (by decide)) fun hclosed ↦ ?_
    have hbehind := hfollows.skip_one (ne_nil_of_head?_beq hclosed)
    exact .guard (tagEnds_of_follows hbehind inFlow) fun _ ↦
      .read hbehind ((e.skip_suffix 1).trans hsuffix)
  · refine (readHandle_agrees h false).bind fun handle e e' hfollows hsuffix ↦ ?_
    refine rel_ite rfl (fun _ ↦ ?_) fun _ ↦ ?_
    · refine ((readSuffix_agrees hfollows false (hmore hsuffix).1 (hmore hsuffix).2).mono
        hsuffix).bind fun suffix k k' hfollows hsuffix ↦ ?_
      exact .guard (tagEnds_of_follows hfollows inFlow) fun _ ↦ .read hfollows hsuffix
    · refine ((readUri_agrees hfollows false 0 (hmore hsuffix).1 (hmore hsuffix).2).mono
        hsuffix).bind fun bytes k k' hfollows hsuffix ↦ ?_
      refine .guard (tagEnds_of_follows hfollows inFlow) fun _ ↦ ?_
      exact rel_ite rfl (fun _ ↦ .read hfollows hsuffix) fun _ ↦ .read hfollows hsuffix

def readVersion (c : Cursor) : Option (Token × Cursor) := do
  let (major, c) ← readVersionNumber c
  guard (c.rest.head? == some '.')
  let (minor, c) ← readVersionNumber (c.skip 1)
  return (.version major minor, c)

def readShorthand (fuel : Nat) (c : Cursor) : Option (Token × Cursor) := do
  let (handle, c) ← readHandle true c
  guard (c.rest.head?.any isSpacing)
  let (uri, c) ← readSuffix true fuel (c.skipWhile isSpacing)
  guard (atGap c.rest)
  return (.tagPrefix handle uri, c)

def readSetting (fuel : Nat) (name : Text) (c : Cursor) : Option (Token × Cursor) :=
  if name == "YAML".toList then readVersion c
  else if name == "TAG".toList then readShorthand fuel c
  else none

theorem readDirective_eq (fuel : Nat) (c : Cursor) :
    readDirective fuel c =
      (guard ((!((c.skip 1).span isNameChar).1.isEmpty &&
          atGap ((c.skip 1).skipWhile isNameChar).rest) = true) >>= fun _ ↦
        readSetting fuel ((c.skip 1).span isNameChar).1
            (((c.skip 1).skipWhile isNameChar).skipWhile isSpacing) >>= fun p ↦
          guard (atLineEnd p.2.skipToLineEnd.rest = true) >>= fun _ ↦
            some (p.1, p.2.skipToLineEnd.readBreak.2)) := by
  unfold readDirective readSetting
  dsimp only
  refine congrArg (_ >>= ·) (funext fun _ ↦ ?_)
  by_cases hversion : ((c.skip 1).span isNameChar).1 = "YAML".toList
  · rw [if_pos hversion, if_pos (beq_iff_eq.2 hversion)]
    simp only [readVersion, bind_assoc, pure_bind]
    rfl
  · rw [if_neg hversion, if_neg (mt beq_iff_eq.1 hversion)]
    by_cases htag : ((c.skip 1).span isNameChar).1 = "TAG".toList
    · rw [if_pos htag, if_pos (beq_iff_eq.2 htag)]
      simp only [readShorthand, bind_assoc, pure_bind]
      rfl
    · rw [if_neg htag, if_neg (mt beq_iff_eq.1 htag)]
      rfl

theorem readVersion_agrees (h : c.Follows f d) :
    Agrees f c.rest (readVersion c) (readVersion d) := by
  refine (readVersionNumber_agrees h).bind fun major e e' hfollows hsuffix ↦ ?_
  refine .guard (hfollows.head?_beq (by decide)) fun hdot ↦ ?_
  refine ((readVersionNumber_agrees (hfollows.skip_one (ne_nil_of_head?_beq hdot))).mono
    ((e.skip_suffix 1).trans hsuffix)).bind fun minor k k' hfollows hsuffix ↦ ?_
  exact .read hfollows hsuffix

theorem readShorthand_agrees (h : c.Follows f d) (hfuel : c.rest.length < fuel)
    (hfuel' : c.rest.length + f.behind.length < fuel') :
    Agrees f c.rest (readShorthand fuel c) (readShorthand fuel' d) := by
  refine ((readHandle_agrees h true).mono c.rest.tail_suffix).bind
    fun handle e e' hfollows hsuffix ↦ ?_
  by_cases hnil : e.rest = []
  · have hmargin : ∀ y ∈ (e'.skipWhile isSpacing).rest, isMargin y := fun y hy ↦
      hfollows.margin_of_nil hnil y ((e'.skipWhile_suffix isSpacing).subset hy)
    have hend : e.rest.head?.any isSpacing = false := by
      rw [hnil]
      rfl
    dsimp only
    rw [readSuffix_of_margin hmargin, hend, guard_bind_eq_ite, guard_bind_eq_ite]
    rw [if_neg Bool.false_ne_true, Option.bind_eq_bind, Option.bind_none, ite_self]
    exact .failed
  · refine .guard (by rw [hfollows.head?_eq hnil]) fun _ ↦ ?_
    have hspaced := e.skipWhile_suffix isSpacing
    have hle := (hspaced.trans hsuffix).length_le
    refine ((readSuffix_agrees (hfollows.skipWhile isSpacing) true (by omega) (by omega)).mono
      (hspaced.trans hsuffix)).bind fun uri k k' hfollows hsuffix ↦ ?_
    exact .guard hfollows.atGap fun _ ↦ .read hfollows hsuffix

theorem readSetting_agrees (h : c.Follows f d) (name : Text) (hfuel : c.rest.length < fuel)
    (hfuel' : c.rest.length + f.behind.length < fuel') :
    Agrees f c.rest (readSetting fuel name c) (readSetting fuel' name d) :=
  rel_ite rfl (fun _ ↦ readVersion_agrees h) fun _ ↦
    rel_ite rfl (fun _ ↦ readShorthand_agrees h hfuel hfuel') fun _ ↦ .failed

theorem readDirective_agrees (h : c.Follows f d) (hne : c.rest ≠ []) (hfuel : c.rest.length < fuel)
    (hfuel' : c.rest.length + f.behind.length < fuel') :
    Agrees f c.rest.tail (readDirective fuel c) (readDirective fuel' d) := by
  have hskip := h.skip_one hne
  have hnamed := hskip.skipWhile isNameChar
  have hsuffix := suffix_tail_of_skip ((c.skip 1).skipWhile_suffix isNameChar)
  have hspaced := (Cursor.skipWhile_suffix _ isSpacing).trans hsuffix
  have hle := (hspaced.trans c.rest.tail_suffix).length_le
  rw [readDirective_eq, readDirective_eq, hskip.span_fst isNameChar_of_isMargin]
  refine .guard (by rw [hnamed.atGap]) fun _ ↦ ?_
  refine ((readSetting_agrees (hnamed.skipWhile isSpacing) _ (by omega) (by omega)).mono
    hspaced).bind fun token e e' hfollows hsuffix ↦ ?_
  refine .guard hfollows.atLineEnd_skipToLineEnd fun _ ↦ ?_
  exact .read hfollows.skipToLineEnd.readBreak
    ((Cursor.readBreak_suffix _).trans ((Cursor.skipToLineEnd_suffix _).trans hsuffix))

end Lexer

end TildeMerge.Yaml
