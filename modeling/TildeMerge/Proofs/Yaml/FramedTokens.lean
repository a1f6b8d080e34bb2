import TildeMerge.Proofs.Yaml.FramedBlocks
import TildeMerge.Proofs.Yaml.FramedTags

namespace TildeMerge.Yaml

def isBlockMark (c : Char) : Bool :=
  c == '|' || c == '>'

def KeyStart.within (k : KeyStart) (f : Frame) : KeyStart :=
  { k with offset := f.offset + k.offset, line := f.line + k.line }

namespace Lexer

def within (x : Lexer) (f : Frame) : Lexer :=
  { x with
    cursor := x.cursor.within f
    keys := x.keys.map (Option.map (KeyStart.within · f)) }

variable {f : Frame} {x y : Lexer} {c : Cursor} {t : Text} {token : Token}

theorem inFlow_within (x : Lexer) (f : Frame) : (x.within f).inFlow = x.inFlow := by
  obtain ⟨cursor, tokens, count, indents, keys, allowed⟩ := x
  cases keys with
  | nil => rfl
  | cons k rest => cases rest <;> rfl

theorem outdentTo_within (x : Lexer) (f : Frame) (column : Int) :
    (x.within f).outdentTo column = (x.outdentTo column).within f := by
  unfold outdentTo
  rw [inFlow_within]
  split
  · rfl
  · rfl

theorem indentTo_within (x : Lexer) (f : Frame) (column position : Nat) (token : Token) :
    (x.within f).indentTo column position token = (x.indentTo column position token).within f := by
  have hindent : (x.within f).indent = x.indent := rfl
  unfold indentTo
  rw [inFlow_within, hindent]
  split
  · rfl
  · rfl

theorem dropKey_within (x : Lexer) (f : Frame) :
    (x.within f).dropKey = x.dropKey.map (within · f) := by
  obtain ⟨cursor, tokens, count, indents, keys, allowed⟩ := x
  cases keys with
  | nil => rfl
  | cons k rest =>
    cases k with
    | none => rfl
    | some k =>
      obtain ⟨position, offset, line, column, required⟩ := k
      cases required <;> rfl

theorem dropKey_cursor (h : x.dropKey = some y) : y.cursor = x.cursor := by
  unfold dropKey at h
  split at h
  · split at h
    · cases h
    · rw [← Option.some.inj h]
  · rw [← Option.some.inj h]

theorem dropStaleKey_within (x : Lexer) (f : Frame) :
    (x.within f).dropStaleKey = x.dropStaleKey.map (within · f) := by
  obtain ⟨cursor, tokens, count, indents, keys, allowed⟩ := x
  cases keys with
  | nil => rfl
  | cons k rest =>
    cases k with
    | none => rfl
    | some k =>
      have hline : f.line + cursor.line ≤ f.line + k.line ↔ cursor.line ≤ k.line :=
        Nat.add_le_add_iff_left
      have hoffset : f.offset + cursor.offset ≤ f.offset + k.offset + 1024 ↔
          cursor.offset ≤ k.offset + 1024 := by
        rw [Nat.add_assoc, Nat.add_le_add_iff_left]
      simp only [dropStaleKey, within, List.map_cons, Option.map_some, KeyStart.within, Cursor.within,
        hline, hoffset]
      split
      · rfl
      · exact dropKey_within ⟨cursor, tokens, count, indents, some k :: rest, allowed⟩ f

def noted (x : Lexer) : Lexer :=
  { x with
    keys := some ⟨x.count, x.cursor.offset, x.cursor.line, x.cursor.column,
      !x.inFlow && x.indent == x.cursor.column⟩ :: x.keys.tail }

theorem keys_tail_within (x : Lexer) (f : Frame) :
    (x.within f).keys.tail = x.keys.tail.map (Option.map (KeyStart.within · f)) :=
  List.map_tail.symm

theorem noted_within (x : Lexer) (f : Frame) : (x.within f).noted = x.noted.within f := by
  unfold noted
  rw [inFlow_within, keys_tail_within]
  rfl

theorem saveKey_eq (x : Lexer) :
    x.saveKey = if x.keyAllowed then x.dropKey.map noted else some x := by
  unfold saveKey
  refine if_congr Iff.rfl ?_ rfl
  cases h : x.dropKey with
  | none => rfl
  | some y =>
    change some _ = some y.noted
    rw [← dropKey_cursor h]
    rfl

theorem saveKey_within (x : Lexer) (f : Frame) :
    (x.within f).saveKey = x.saveKey.map (within · f) := by
  have hallowed : (x.within f).keyAllowed = x.keyAllowed := rfl
  rw [saveKey_eq, saveKey_eq, hallowed, dropKey_within]
  split
  · cases x.dropKey with
    | none => rfl
    | some y => exact congrArg some (noted_within y f)
  · rfl

theorem saveKey_cursor (h : x.saveKey = some y) : y.cursor = x.cursor := by
  rw [saveKey_eq] at h
  split at h
  · obtain ⟨z, hz, rfl⟩ := Option.map_eq_some_iff.1 h
    have hcursor := dropKey_cursor hz
    exact hcursor
  · rw [← Option.some.inj h]

theorem dropKey_place (h : x.dropKey = some y) : y.inFlow = x.inFlow ∧ y.indent = x.indent := by
  obtain ⟨cursor, tokens, count, indents, keys, allowed⟩ := x
  unfold dropKey at h
  split at h
  · rename_i k rest hkeys
    obtain rfl : keys = some k :: rest := hkeys
    split at h
    · cases h
    · rw [← Option.some.inj h]
      cases rest <;> exact ⟨rfl, rfl⟩
  · rw [← Option.some.inj h]
    exact ⟨rfl, rfl⟩

theorem inFlow_noted (x : Lexer) : x.noted.inFlow = x.inFlow := by
  obtain ⟨cursor, tokens, count, indents, keys, allowed⟩ := x
  cases keys with
  | nil => rfl
  | cons k rest => cases rest <;> rfl

theorem saveKey_place (h : x.saveKey = some y) : y.inFlow = x.inFlow ∧ y.indent = x.indent := by
  rw [saveKey_eq] at h
  split at h
  · obtain ⟨z, hz, rfl⟩ := Option.map_eq_some_iff.1 h
    rw [inFlow_noted]
    exact dropKey_place hz
  · rw [← Option.some.inj h]
    exact ⟨rfl, rfl⟩

theorem openBlock_within (x : Lexer) (f : Frame) (token : Token) :
    (x.within f).openBlock token = (x.openBlock token).map (within · f) := by
  have hallowed : (x.within f).keyAllowed = x.keyAllowed := rfl
  unfold openBlock
  rw [inFlow_within, hallowed, indentTo_within]
  split
  · rfl
  · split
    · rfl
    · rfl

theorem indentTo_cursor (x : Lexer) (column position : Nat) (token : Token) :
    (x.indentTo column position token).cursor = x.cursor := by
  unfold indentTo
  split
  · rfl
  · rfl

theorem outdentTo_cursor (x : Lexer) (column : Int) : (x.outdentTo column).cursor = x.cursor := by
  unfold outdentTo
  split
  · rfl
  · rfl

theorem openBlock_cursor (h : x.openBlock token = some y) : y.cursor = x.cursor := by
  unfold openBlock at h
  split at h
  · rw [← Option.some.inj h]
  · split at h
    · rw [← Option.some.inj h, indentTo_cursor]
    · cases h

/-- The second lexer is the first one in the longer text, or stands somewhere in the margin if the first
one stands at the end. Whether a key may start may differ there. -/
structure Follows (f : Frame) (x y : Lexer) : Prop where
  cursor : x.cursor.Follows f y.cursor
  keyAllowed : x.cursor.rest ≠ [] → y.keyAllowed = x.keyAllowed
  state : y = { x.within f with cursor := y.cursor, keyAllowed := y.keyAllowed }

theorem follows_within (x : Lexer) (f : Frame) : x.Follows f (x.within f) :=
  ⟨.inside _, fun _ ↦ rfl, rfl⟩

theorem Follows.eq_within (h : x.Follows f y) (hx : x.cursor.rest ≠ []) : y = x.within f := by
  rw [h.state, h.cursor.eq_within hx, h.keyAllowed hx]
  rfl

/-- Two lexers have both failed, or the second one follows the first one, which stands in a given rest of
the text. -/
inductive InStep (f : Frame) (t : Text) : Option Lexer → Option Lexer → Prop where
  | failed : InStep f t none none
  | read {x y : Lexer} (h : x.Follows f y) (hx : x.cursor.rest <:+ t) : InStep f t (some x) (some y)

namespace InStep

variable {r s : Option Lexer}

theorem bind {g k : Lexer → Option Lexer} (hs : s = r.map (within · f))
    (hg : ∀ z, r = some z → InStep f t (g z) (k (z.within f))) : InStep f t (r >>= g) (s >>= k) := by
  subst hs
  cases r with
  | none => exact .failed
  | some z => exact hg z rfl

theorem mark (hc : y.cursor = c) (hne : c.rest ≠ []) (token : Token) :
    InStep f c.rest.tail (some (y.emitMark token 1)) (some ((y.within f).emitMark token 1)) := by
  subst hc
  have hwithin : (y.within f).emitMark token 1 = (y.emitMark token 1).within f := by
    have hskip := Cursor.skip_within (f := f) (List.length_pos_iff.2 hne)
    change Lexer.emit { y.within f with cursor := (y.cursor.within f).skip 1 } token = _
    rw [hskip]
    rfl
  rw [hwithin]
  exact .read (follows_within _ f) (by rw [← List.drop_one]; exact List.suffix_rfl)

theorem read_token {r s : Option (Token × Cursor)} (hread : Agrees f t r s) (y : Lexer) :
    InStep f t (r >>= fun p ↦ some ({ y with cursor := p.2, keyAllowed := false }.emit p.1))
      (s >>= fun p ↦ some ({ y.within f with cursor := p.2, keyAllowed := false }.emit p.1)) := by
  cases hread with
  | failed => exact .failed
  | read h hc => exact .read ⟨h, fun _ ↦ rfl, rfl⟩ hc

end InStep

section Marks

variable (hne : x.cursor.rest ≠ [])

include hne

theorem openFlow_inStep (token : Token) :
    InStep f x.cursor.rest.tail (x.openFlow token) ((x.within f).openFlow token) := by
  refine .bind (saveKey_within x f) fun z hz ↦ ?_
  have hcursor := saveKey_cursor hz
  exact .mark (y := { z with keys := none :: z.keys, keyAllowed := true }) hcursor hne token

theorem closeFlow_inStep (token : Token) :
    InStep f x.cursor.rest.tail (x.closeFlow token) ((x.within f).closeFlow token) := by
  refine .bind (dropKey_within x f) fun z hz ↦ ?_
  have hcursor := dropKey_cursor hz
  dsimp only
  rw [inFlow_within, keys_tail_within]
  split
  · exact .mark (y := { z with keys := z.keys.tail, keyAllowed := false }) hcursor hne token
  · exact .mark (y := { z with keyAllowed := false }) hcursor hne token

theorem comma_inStep : InStep f x.cursor.rest.tail x.comma (x.within f).comma := by
  refine .bind (dropKey_within x f) fun z hz ↦ ?_
  have hcursor := dropKey_cursor hz
  exact .mark (y := { z with keyAllowed := true }) hcursor hne .comma

theorem entry_inStep : InStep f x.cursor.rest.tail x.entry (x.within f).entry := by
  refine .bind (openBlock_within x f _) fun z hz ↦ .bind (dropKey_within z f) fun k hk ↦ ?_
  have hcursor := (dropKey_cursor hk).trans (openBlock_cursor hz)
  exact .mark (y := { k with keyAllowed := true }) hcursor hne .entry

theorem key_inStep : InStep f x.cursor.rest.tail x.key (x.within f).key := by
  refine .bind (openBlock_within x f _) fun z hz ↦ .bind (dropKey_within z f) fun k hk ↦ ?_
  have hcursor := (dropKey_cursor hk).trans (openBlock_cursor hz)
  rw [inFlow_within]
  exact .mark (y := { k with keyAllowed := !k.inFlow }) hcursor hne .key

theorem bareValue_inStep :
    InStep f x.cursor.rest.tail
      (x.openBlock .blockMapping >>= fun x ↦ some ({ x with keyAllowed := !x.inFlow }.emitMark .value 1))
      ((x.within f).openBlock .blockMapping >>= fun x ↦
        some ({ x with keyAllowed := !x.inFlow }.emitMark .value 1)) := by
  refine .bind (openBlock_within x f _) fun z hz ↦ ?_
  have hcursor := openBlock_cursor hz
  rw [inFlow_within]
  exact .mark (y := { z with keyAllowed := !z.inFlow }) hcursor hne .value

theorem value_inStep : InStep f x.cursor.rest.tail x.value (x.within f).value := by
  obtain ⟨cursor, tokens, count, indents, keys, allowed⟩ := x
  cases keys with
  | nil => exact bareValue_inStep hne
  | cons k rest =>
    cases k with
    | none => exact bareValue_inStep hne
    | some k =>
      let z : Lexer :=
        { insertAt ⟨cursor, tokens, count, indents, some k :: rest, allowed⟩ k.position .key with
          keys := none :: rest
          keyAllowed := false }
      have hwithin := indentTo_within z f k.column k.position .blockMapping
      change InStep f cursor.rest.tail
        (some ((z.indentTo k.column k.position .blockMapping).emitMark .value 1))
        (some (((z.within f).indentTo k.column k.position .blockMapping).emitMark .value 1))
      rw [hwithin]
      exact .mark (indentTo_cursor z _ _ _) hne .value

end Marks

theorem content_inStep {read read' : Cursor → Option (Token × Cursor)}
    (hread : Agrees f x.cursor.rest.tail (read x.cursor) (read' (x.cursor.within f))) :
    InStep f x.cursor.rest.tail (x.content read) ((x.within f).content read') := by
  refine .bind (saveKey_within x f) fun z hz ↦ ?_
  have hcursor : (z.within f).cursor = x.cursor.within f := by
    rw [← saveKey_cursor hz]
    rfl
  rw [hcursor, saveKey_cursor hz]
  exact .read_token hread z

theorem atMargin_inStep {read read' : Cursor → Option (Token × Cursor)}
    (hread : Agrees f x.cursor.rest.tail (read x.cursor) (read' (x.cursor.within f))) :
    InStep f x.cursor.rest.tail (x.atMargin read) ((x.within f).atMargin read') := by
  unfold atMargin
  rw [outdentTo_within]
  refine .bind (dropKey_within _ f) fun z hz ↦ ?_
  have hz := (dropKey_cursor hz).trans (outdentTo_cursor x (-1))
  have hcursor : (z.within f).cursor = x.cursor.within f := by
    rw [← hz]
    rfl
  rw [hcursor, hz]
  exact .read_token hread z

theorem plain_inStep {fuel fuel' : Nat}
    (hread : PlainMeets f x.cursor.rest.tail
      (plainScalar x.inFlow (x.indent + 1).toNat fuel x.cursor)
      (plainScalar x.inFlow (x.indent + 1).toNat fuel' (x.cursor.within f))) :
    InStep f x.cursor.rest.tail (x.plain fuel) ((x.within f).plain fuel') := by
  refine .bind (saveKey_within x f) fun z hz ↦ ?_
  have hcursor := saveKey_cursor hz
  obtain ⟨hflow, hindent⟩ := saveKey_place hz
  have hwithin : (z.within f).cursor = x.cursor.within f := by
    rw [← hcursor]
    rfl
  have hindent' : (z.within f).indent = x.indent := hindent
  rw [inFlow_within, hwithin, hcursor, hflow, hindent', hindent]
  generalize plainScalar x.inFlow (x.indent + 1).toNat fuel x.cursor = r at hread ⊢
  generalize plainScalar x.inFlow (x.indent + 1).toNat fuel' (x.cursor.within f) = s at hread ⊢
  cases hread with
  | failed => exact .failed
  | read h same hc => exact .read ⟨h, fun hne ↦ (same hne).symm, rfl⟩ hc

theorem block_inStep {folded : Bool} {fuel fuel' : Nat}
    (hread : Meets f x.cursor.rest.tail (blockScalar folded x.indent fuel x.cursor)
      (blockScalar folded x.indent fuel' (x.cursor.within f)))
    (hleft : ∀ z, x.block folded fuel = some z → z.cursor.rest ≠ []) :
    InStep f x.cursor.rest.tail (x.block folded fuel) ((x.within f).block folded fuel') := by
  unfold block at hleft ⊢
  rw [dropKey_within]
  cases hz : x.dropKey with
  | none => exact .failed
  | some z =>
    have hcursor := dropKey_cursor hz
    have hindent := (dropKey_place hz).2
    have hwithin : (z.within f).cursor = x.cursor.within f := by
      rw [← hcursor]
      rfl
    have hindent' : (z.within f).indent = x.indent := hindent
    rw [hz, Option.bind_eq_bind, Option.bind_some, hcursor, hindent] at hleft
    rw [Option.map_some, Option.bind_eq_bind, Option.bind_some, Option.bind_eq_bind, Option.bind_some,
      hwithin, hcursor, hindent', hindent]
    generalize blockScalar folded x.indent fuel x.cursor = r at hread hleft ⊢
    generalize blockScalar folded x.indent fuel' (x.cursor.within f) = s at hread ⊢
    cases hread with
    | failed => exact .failed
    | read h same hc =>
      obtain rfl := same (hleft _ rfl)
      exact .read ⟨h, fun _ ↦ rfl, rfl⟩ hc

/-- Whether a block scalar stands at the cursor. -/
def atBlock (x : Lexer) : Bool :=
  !x.inFlow && x.cursor.rest.head?.any isBlockMark

theorem readToken_of_isBlockMark {d : Char} {rest : Text} (hrest : x.cursor.rest = d :: rest)
    (hd : isBlockMark d) (hflow : x.inFlow = false) (fuel : Nat) (rest' : Text) :
    x.readToken fuel d rest' = x.block (d == '>') fuel := by
  rw [isBlockMark, Bool.or_eq_true, beq_iff_eq, beq_iff_eq] at hd
  rcases hd with rfl | rfl <;> simp [readToken, Cursor.atMarker, hrest, hflow]

theorem blockToken_inStep {d : Char} {rest : Text} {fuel fuel' : Nat} (hrest : x.cursor.rest = d :: rest)
    (hd : isBlockMark d) (hflow : x.inFlow = false)
    (hleft : ∀ z, x.readToken fuel d rest = some z → z.cursor.rest ≠ [])
    (hfuel : x.cursor.rest.length < fuel) (hfuel' : x.cursor.rest.length + f.behind.length < fuel') :
    InStep f rest (x.readToken fuel d rest) ((x.within f).readToken fuel' d (rest ++ f.behind)) := by
  have hne : x.cursor.rest ≠ [] := hrest ▸ List.cons_ne_nil d rest
  have hwithin : (x.within f).cursor.rest = d :: (rest ++ f.behind) := by
    change x.cursor.rest ++ f.behind = _
    rw [hrest]
    rfl
  rw [readToken_of_isBlockMark hrest hd hflow] at hleft ⊢
  rw [readToken_of_isBlockMark hwithin hd ((inFlow_within x f).trans hflow)]
  obtain rfl : rest = x.cursor.rest.tail := by rw [hrest, List.tail_cons]
  exact block_inStep (blockScalar_meets (.inside x.cursor) hne hfuel hfuel') hleft

theorem startsPlain_append {m : Text} (hm : ∀ y ∈ m, isMargin y) {inFlow : Bool} {d : Char} {rest : Text}
    (hentry : (d == '-' && atGap rest) = false) :
    startsPlain inFlow d (rest ++ m) = startsPlain inFlow d rest := by
  unfold startsPlain
  rw [atGap_append hm]
  cases hd : d == '-' with
  | false => rfl
  | true =>
    rw [hd, Bool.true_and] at hentry
    cases rest with
    | nil => cases hentry
    | cons z rest => rfl

theorem plainPiece_ne_nil {inFlow : Bool} {d : Char} {rest : Text} (hmargin : isMargin d = false)
    (hvalue : (d == ':' && (inFlow || atGap rest)) = false) (hstarts : startsPlain inFlow d rest) :
    plainPiece inFlow (d :: rest) ≠ some [] := by
  rw [isMargin, Bool.or_eq_false_iff] at hmargin
  rw [startsPlain, Bool.and_eq_true, Bool.not_eq_true'] at hstarts
  obtain ⟨hspacing, hstarts⟩ := hstarts
  rw [plainPiece, if_neg (by rw [hmargin.2, hspacing]; exact Bool.false_ne_true)]
  split
  · exact Option.some_ne_none _ ∘ Eq.symm
  · rename_i hflow
    have hcolon : ¬(d == ':' && atGap rest) := fun h ↦ by
      rw [Bool.and_eq_true] at h
      rw [h.1, h.2, Bool.or_true] at hvalue
      cases hvalue
    rw [if_neg hcolon]
    have hmark : ¬(inFlow && isFlowMark d) := fun h ↦ by
      rw [Bool.and_eq_true] at h
      have hd : d ∈ [',', '[', ']', '{', '}'] := by
        simpa [isFlowMark, or_assoc] using h.2
      simp only [List.mem_cons, List.not_mem_nil, or_false] at hd
      rw [h.1] at hstarts
      rcases hd with rfl | rfl | rfl | rfl | rfl <;> cases hstarts
    rw [if_neg hmark]
    intro h
    obtain ⟨piece, -, hpiece⟩ := Option.map_eq_some_iff.1 h
    cases hpiece

theorem otherToken_inStep {d : Char} {rest : Text} {fuel fuel' : Nat} (hrest : x.cursor.rest = d :: rest)
    (hmargin : isMargin d = false) (hblock : (!x.inFlow && isBlockMark d) = false)
    (hfuel : x.cursor.rest.length < fuel) (hfuel' : x.cursor.rest.length + f.behind.length < fuel') :
    InStep f rest (x.readToken fuel d rest) ((x.within f).readToken fuel' d (rest ++ f.behind)) := by
  have h : x.cursor.Follows f (x.within f).cursor := .inside x.cursor
  have hne : x.cursor.rest ≠ [] := hrest ▸ List.cons_ne_nil d rest
  obtain rfl : rest = x.cursor.rest.tail := by rw [hrest, List.tail_cons]
  unfold readToken
  rw [inFlow_within, atGap_append f.margin]
  refine rel_ite rfl (fun _ ↦ atMargin_inStep (readDirective_agrees h hne hfuel hfuel')) fun _ ↦ ?_
  refine rel_ite h.atMarker (fun hmarker ↦ atMargin_inStep ?_) fun hmarker ↦ ?_
  · refine .read (h.skip (Cursor.three_le_of_atMarker hmarker)) ?_
    rw [Cursor.skip_rest, ← List.drop_tail]
    exact List.drop_suffix 2 _
  refine rel_ite rfl (fun _ ↦ openFlow_inStep hne _) fun _ ↦ ?_
  refine rel_ite rfl (fun _ ↦ openFlow_inStep hne _) fun _ ↦ ?_
  refine rel_ite rfl (fun _ ↦ closeFlow_inStep hne _) fun _ ↦ ?_
  refine rel_ite rfl (fun _ ↦ closeFlow_inStep hne _) fun _ ↦ ?_
  refine rel_ite rfl (fun _ ↦ comma_inStep hne) fun _ ↦ ?_
  refine rel_ite rfl (fun _ ↦ entry_inStep hne) fun hentry ↦ ?_
  refine rel_ite rfl (fun _ ↦ key_inStep hne) fun _ ↦ ?_
  refine rel_ite rfl (fun _ ↦ value_inStep hne) fun hvalue ↦ ?_
  refine rel_ite rfl (fun _ ↦ content_inStep ((readName_agrees h hne).map _)) fun _ ↦ ?_
  refine rel_ite rfl (fun _ ↦ content_inStep ((readName_agrees h hne).map _)) fun _ ↦ ?_
  refine rel_ite rfl (fun _ ↦ content_inStep (readTag_agrees h hne _ hfuel hfuel')) fun _ ↦ ?_
  rw [Bool.and_comm, isBlockMark, Bool.and_or_distrib_right, Bool.or_eq_false_iff] at hblock
  refine rel_ite rfl (fun h ↦ absurd h (Bool.eq_false_iff.1 hblock.1)) fun _ ↦ ?_
  refine rel_ite rfl (fun h ↦ absurd h (Bool.eq_false_iff.1 hblock.2)) fun _ ↦ ?_
  refine rel_ite rfl (fun hquote ↦ content_inStep ?_) fun _ ↦ ?_
  · exact (quotedScalar_agrees hmargin h hne hfuel hfuel').map (Token.scalar · .quoted)
  refine rel_ite (startsPlain_append f.margin hentry) (fun hstarts ↦ plain_inStep ?_) fun _ ↦ .failed
  -- What could be an empty plain scalar has been read as another token.
  have hpiece : plainPiece x.inFlow x.cursor.rest ≠ some [] := by
    rw [hrest]
    exact plainPiece_ne_nil hmargin hvalue hstarts
  have hcomment : (x.cursor.rest.head? == some '#') = false := by
    rw [hrest, List.head?_cons, Option.some_beq_some, beq_eq_false_iff_ne]
    rintro rfl
    cases hflow : x.inFlow <;> rw [hflow] at hstarts <;> cases hstarts
  exact plainScalar_meets h hmarker hcomment hpiece hfuel hfuel'

/-- The next token, unless it is a block scalar that takes all that is left, takes at least the character at
the cursor and leaves the two lexers in step. -/
theorem readToken_inStep {d : Char} {rest : Text} {fuel fuel' : Nat} (hrest : x.cursor.rest = d :: rest)
    (hmargin : isMargin d = false)
    (hleft : x.atBlock → ∀ z, x.readToken fuel d rest = some z → z.cursor.rest ≠ [])
    (hfuel : x.cursor.rest.length < fuel) (hfuel' : x.cursor.rest.length + f.behind.length < fuel') :
    InStep f rest (x.readToken fuel d rest) ((x.within f).readToken fuel' d (rest ++ f.behind)) := by
  have hblock : x.atBlock = (!x.inFlow && isBlockMark d) := by
    rw [atBlock, hrest]
    rfl
  cases hhere : x.atBlock with
  | true =>
    have hends := hleft hhere
    rw [hblock, Bool.and_eq_true, Bool.not_eq_true'] at hhere
    exact blockToken_inStep hrest hhere.2 hhere.1 hends hfuel hfuel'
  | false => exact otherToken_inStep hrest hmargin (hblock.symm.trans hhere) hfuel hfuel'

end Lexer

end TildeMerge.Yaml
