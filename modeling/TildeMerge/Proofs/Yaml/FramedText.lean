import TildeMerge.Proofs.Yaml.FramedTokens
import TildeMerge.Yaml.Reader
import Mathlib.Data.List.TakeWhile

namespace TildeMerge.Yaml

variable {f : Frame} {c d : Cursor} {t m u : Text}

namespace Cursor

def skipMark (c : Cursor) : Cursor :=
  if c.column == 0 && c.rest.head? == some '\uFEFF' then c.skip 1 else c

theorem skipMark_suffix (c : Cursor) : c.skipMark.rest <:+ c.rest := by
  unfold skipMark
  split
  · exact c.skip_suffix 1
  · exact List.suffix_rfl

theorem Follows.skipMark (h : c.Follows f d) (hc : c.rest ≠ []) :
    c.skipMark.Follows f d.skipMark := by
  have hcolumn : d.column = c.column := by
    rw [h.eq_within hc]
    rfl
  unfold Cursor.skipMark
  rw [hcolumn, h.head?_eq hc]
  split
  · exact h.skip_one hc
  · exact h

end Cursor

namespace Lexer

variable {x y : Lexer} {fuel fuel' : Nat}

/-- The cursor behind the spacing and the comment on the line. -/
def ahead (x : Lexer) : Cursor :=
  let c := x.cursor.skipMark.skipWhile fun d ↦ d == ' ' || ((x.inFlow || !x.keyAllowed) && d == '\t')
  if c.rest.head? == some '#' then c.skipLine else c

theorem skipGap_succ (fuel : Nat) (x : Lexer) :
    skipGap (fuel + 1) x =
      if x.ahead.rest.head?.any isBreak then
        skipGap fuel
          { x with cursor := x.ahead.readBreak.2, keyAllowed := x.keyAllowed || !x.inFlow }
      else { x with cursor := x.ahead } := rfl

theorem ahead_suffix (x : Lexer) : x.ahead.rest <:+ x.cursor.rest := by
  have hspaced := (Cursor.skipWhile_suffix x.cursor.skipMark fun d ↦
    d == ' ' || ((x.inFlow || !x.keyAllowed) && d == '\t')).trans x.cursor.skipMark_suffix
  unfold ahead
  dsimp only
  split
  · exact (Cursor.skipWhile_suffix _ _).trans hspaced
  · exact hspaced

theorem head?_ahead (h : x.ahead.rest.head?.any isBreak = false) :
    x.ahead.rest.head?.any isMargin = false := by
  revert h
  unfold ahead
  dsimp only
  split
  · intro h
    have hend := Cursor.atLineEnd_skipLine (x.cursor.skipMark.skipWhile fun d ↦
      d == ' ' || ((x.inFlow || !x.keyAllowed) && d == '\t'))
    revert h hend
    cases (Cursor.skipLine _).rest with
    | nil => exact fun _ _ ↦ rfl
    | cons z rest => exact fun h hend ↦ absurd hend (Bool.eq_false_iff.1 h)
  · intro h
    rw [Cursor.skipWhile_rest] at h ⊢
    have hhead := List.head?_dropWhile_not
      (fun d ↦ d == ' ' || ((x.inFlow || !x.keyAllowed) && d == '\t')) x.cursor.skipMark.rest
    revert h hhead
    cases List.dropWhile _ _ with
    | nil => exact fun _ _ ↦ rfl
    | cons z rest =>
      intro h hhead
      simp_all [isMargin]

theorem Follows.inFlow_eq (h : x.Follows f y) : y.inFlow = x.inFlow := by
  rw [h.state]
  exact inFlow_within x f

theorem Follows.of_state {b b' : Bool} (h : x.Follows f y) (hc : c.Follows f d)
    (hb : c.rest ≠ [] → b' = b) :
    Follows f { x with cursor := c, keyAllowed := b } { y with cursor := d, keyAllowed := b' } :=
  ⟨hc, hb, congrArg (fun z : Lexer ↦ { z with cursor := d, keyAllowed := b' }) h.state⟩

theorem Follows.ahead (h : x.Follows f y) : x.ahead.Follows f y.ahead := by
  by_cases hx : x.cursor.rest = []
  · have hnil : x.ahead.rest = [] := by
      have hsuffix := x.ahead_suffix
      rwa [hx, List.suffix_nil] at hsuffix
    exact .beyond hnil (y.ahead_suffix.trans (h.cursor.suffix_behind hx))
  · have hspaced := (h.cursor.skipMark hx).skipWhile fun d ↦
      d == ' ' || ((x.inFlow || !x.keyAllowed) && d == '\t')
    unfold Lexer.ahead
    rw [h.inFlow_eq, h.keyAllowed hx]
    dsimp only
    rw [hspaced.head?_beq (by decide)]
    split
    · exact hspaced.skipLine
    · exact hspaced

theorem skipGap_suffix_ahead (fuel : Nat) (x : Lexer) :
    (skipGap (fuel + 1) x).cursor.rest <:+ x.ahead.rest := by
  induction fuel generalizing x with
  | zero =>
    rw [skipGap_succ]
    split
    · exact x.ahead.readBreak_suffix
    · exact List.suffix_rfl
  | succ fuel ih =>
    rw [skipGap_succ]
    split
    · exact (ih _).trans ((ahead_suffix _).trans x.ahead.readBreak_suffix)
    · exact List.suffix_rfl

theorem skipGap_suffix (fuel : Nat) (x : Lexer) :
    (skipGap fuel x).cursor.rest <:+ x.cursor.rest := by
  cases fuel with
  | zero => exact List.suffix_rfl
  | succ fuel => exact (skipGap_suffix_ahead fuel x).trans x.ahead_suffix

theorem skipGap_state (fuel : Nat) (x : Lexer) :
    skipGap fuel x =
      { x with cursor := (skipGap fuel x).cursor, keyAllowed := (skipGap fuel x).keyAllowed } := by
  induction fuel generalizing x with
  | zero => rfl
  | succ fuel ih =>
    rw [skipGap_succ]
    split
    · exact ih _
    · rfl

theorem head?_skipGap (h : x.cursor.rest.length < fuel) :
    (skipGap fuel x).cursor.rest.head?.any isMargin = false := by
  induction fuel generalizing x with
  | zero => exact absurd h (Nat.not_lt_zero _)
  | succ fuel ih =>
    rw [skipGap_succ]
    split
    · rename_i hbreak
      exact ih ((Cursor.readBreak_length_lt hbreak).trans_le
        (x.ahead_suffix.length_le.trans (Nat.le_of_lt_succ h)))
    · rename_i hbreak
      exact head?_ahead (Bool.eq_false_iff.2 hbreak)

theorem Follows.skipGap (h : x.Follows f y) (hfuel : x.cursor.rest.length < fuel)
    (hfuel' : x.cursor.rest.length + f.behind.length < fuel') :
    (skipGap fuel x).Follows f (skipGap fuel' y) := by
  induction fuel generalizing fuel' x y with
  | zero => exact absurd hfuel (Nat.not_lt_zero _)
  | succ fuel ih =>
    obtain ⟨fuel', rfl⟩ := Nat.exists_eq_add_one.2 (Nat.zero_lt_of_lt hfuel')
    have hahead := h.ahead
    by_cases hx : x.ahead.rest = []
    · have hend : Lexer.skipGap (fuel + 1) x = { x with cursor := x.ahead } := by
        rw [skipGap_succ, hx]
        rfl
      have hsuffix := (skipGap_suffix_ahead fuel' y).trans (hahead.suffix_behind hx)
      rw [hend, skipGap_state]
      exact h.of_state (.beyond hx hsuffix) (absurd hx)
    · have hne : x.cursor.rest ≠ [] := fun hnil ↦ hx (List.suffix_nil.1 (hnil ▸ x.ahead_suffix))
      rw [skipGap_succ, skipGap_succ, hahead.head?_eq hx]
      split
      · rename_i hbreak
        have hlength := Cursor.readBreak_length_lt hbreak
        have hle := x.ahead_suffix.length_le
        rw [h.inFlow_eq, h.keyAllowed hne]
        exact ih (h.of_state hahead.readBreak fun _ ↦ rfl) (by dsimp only; omega) (by dsimp only; omega)
      · exact h.of_state hahead fun _ ↦ h.keyAllowed hne

def stepHere (fuel : Nat) (x : Lexer) : Option (Bool × Lexer) :=
  x.dropStaleKey.bind fun z ↦
    let z := z.outdentTo z.cursor.column
    match z.cursor.rest with
    | [] => z.finish.map (true, ·)
    | d :: rest => (z.readToken fuel d rest).map (false, ·)

theorem step_eq (fuel : Nat) (x : Lexer) : step fuel x = stepHere fuel (Lexer.skipGap fuel x) := by
  unfold step stepHere
  cases (Lexer.skipGap fuel x).dropStaleKey with
  | none => rfl
  | some z =>
    change (match (z.outdentTo z.cursor.column).cursor.rest with
      | [] => _
      | d :: rest => _) = _
    rw [Option.bind_some]
    dsimp only
    split
    · cases (z.outdentTo z.cursor.column).finish <;> rfl
    · rename_i d rest _
      cases (z.outdentTo z.cursor.column).readToken fuel d rest <;> rfl

/-- The tokens from the next token or the end on, if the given fuel is left behind this step. -/
def tokensHere (fuel left : Nat) (x : Lexer) : Option (List Token) :=
  (stepHere fuel x).bind fun p ↦ if p.1 then some p.2.tokens.reverse else run left p.2

theorem run_succ (fuel : Nat) (x : Lexer) :
    run (fuel + 1) x = tokensHere (fuel + 1) fuel (Lexer.skipGap (fuel + 1) x) := by
  rw [run, step_eq]
  rfl

def owesKey (x : Lexer) : Bool :=
  match x.keys with
  | some k :: _ => k.required
  | _ => false

def closed (x : Lexer) : List Token :=
  if x.inFlow then x.tokens else x.indents.map (fun _ ↦ .blockEnd) ++ x.tokens

def ending (x : Lexer) : Option (List Token) :=
  if x.owesKey then none else some x.closed.reverse

theorem dropKey_of_owesKey (h : x.owesKey) : x.dropKey = none := by
  obtain ⟨cursor, tokens, count, indents, keys, allowed⟩ := x
  cases keys with
  | nil => cases h
  | cons k rest =>
    cases k with
    | none => cases h
    | some k => exact if_pos h

theorem exists_dropKey (h : x.owesKey = false) :
    ∃ z, x.dropKey = some z ∧ z.cursor = x.cursor ∧ z.tokens = x.tokens ∧ z.owesKey = false ∧
      z.closed = x.closed := by
  obtain ⟨cursor, tokens, count, indents, keys, allowed⟩ := x
  cases keys with
  | nil => exact ⟨_, rfl, rfl, rfl, rfl, rfl⟩
  | cons k rest =>
    cases k with
    | none => exact ⟨_, rfl, rfl, rfl, rfl, rfl⟩
    | some k =>
      obtain ⟨position, offset, line, column, required⟩ := k
      obtain rfl : required = false := h
      refine ⟨⟨cursor, tokens, count, indents, none :: rest, allowed⟩, rfl, rfl, rfl, rfl, ?_⟩
      cases rest <;> rfl

theorem dropStaleKey_cases (x : Lexer) :
    x.dropStaleKey = some x ∨ x.dropStaleKey = x.dropKey := by
  unfold dropStaleKey
  split
  · split
    · exact .inl rfl
    · exact .inr rfl
  · exact .inl rfl

theorem owesKey_outdentTo (x : Lexer) (column : Int) : (x.outdentTo column).owesKey = x.owesKey := by
  unfold outdentTo
  split
  · rfl
  · rfl

theorem closed_outdentTo (x : Lexer) (column : Int) : (x.outdentTo column).closed = x.closed := by
  unfold outdentTo
  split
  · rfl
  · rename_i hflow
    have hblocks : x.closed = x.indents.map (fun _ ↦ .blockEnd) ++ x.tokens := if_neg hflow
    have hle := (List.takeWhile_prefix (fun c : Nat ↦ decide (column < c)) (l := x.indents)).length_le
    rw [hblocks]
    refine (if_neg hflow).trans ?_
    simp only [List.map_const', ← List.append_assoc, List.replicate_append_replicate]
    rw [List.length_drop, Nat.sub_add_cancel hle]

theorem tokens_outdentTo (x : Lexer) : (x.outdentTo (-1)).tokens = x.closed := by
  have hall : x.indents.takeWhile (fun c : Nat ↦ decide ((-1 : Int) < c)) = x.indents :=
    List.takeWhile_eq_self_iff.2 fun c _ ↦ decide_eq_true (by omega)
  unfold outdentTo closed
  split
  · rfl
  · dsimp only
    rw [hall]

theorem finish_tokens (x : Lexer) : x.finish.map (·.tokens.reverse) = x.ending := by
  have howes := owesKey_outdentTo x (-1)
  unfold finish ending
  split
  · rename_i h
    rw [dropKey_of_owesKey (howes.trans h), Option.map_none]
  · rename_i h
    obtain ⟨z, hz, -, htokens, -⟩ := exists_dropKey (howes.trans (Bool.eq_false_iff.2 h))
    rw [hz, Option.map_some, htokens, tokens_outdentTo]

theorem ending_outdentTo (x : Lexer) (column : Int) : (x.outdentTo column).ending = x.ending := by
  unfold ending
  rw [owesKey_outdentTo, closed_outdentTo]

/-- At the end of the text nothing depends on where the lexer stands. -/
theorem tokensHere_of_end (hx : x.cursor.rest = []) (fuel left : Nat) :
    tokensHere fuel left x = x.ending := by
  have hfinish {z : Lexer} (hz : z.cursor.rest = []) :
      (match (z.outdentTo z.cursor.column).cursor.rest with
        | [] => (z.outdentTo z.cursor.column).finish.map (true, ·)
        | d :: rest => ((z.outdentTo z.cursor.column).readToken fuel d rest).map (false, ·)).bind
          (fun p ↦ if p.1 then some p.2.tokens.reverse else run left p.2) = z.ending := by
    have hrest : (z.outdentTo z.cursor.column).cursor.rest = [] := by rw [outdentTo_cursor, hz]
    rw [hrest, ← ending_outdentTo z z.cursor.column, ← finish_tokens]
    cases (z.outdentTo z.cursor.column).finish <;> rfl
  unfold tokensHere stepHere
  rcases dropStaleKey_cases x with h | h
  · rw [h]
    exact hfinish hx
  · cases howes : x.owesKey with
    | true =>
      rw [h, dropKey_of_owesKey howes, ending, howes]
      rfl
    | false =>
      obtain ⟨z, hz, hcursor, -, hfree, hclosed⟩ := exists_dropKey howes
      have hending : x.ending = z.ending := by
        rw [ending, ending, howes, hfree, hclosed]
      rw [h, hz, hending]
      exact hfinish (by rw [hcursor, hx])

theorem Follows.ending (h : x.Follows f y) : y.ending = x.ending := by
  obtain ⟨cursor, tokens, count, indents, keys, allowed⟩ := x
  have howes : y.owesKey = Lexer.owesKey ⟨cursor, tokens, count, indents, keys, allowed⟩ := by
    rw [h.state]
    cases keys with
    | nil => rfl
    | cons k rest => cases k <;> rfl
  have hclosed : y.closed = Lexer.closed ⟨cursor, tokens, count, indents, keys, allowed⟩ := by
    have hflow := h.inFlow_eq
    unfold Lexer.closed
    rw [hflow, h.state]
    rfl
  rw [Lexer.ending, Lexer.ending, howes, hclosed]

theorem dropStaleKey_cursor (h : x.dropStaleKey = some y) : y.cursor = x.cursor := by
  rcases dropStaleKey_cases x with hsame | hdrop
  · rw [hsame] at h
    rw [Option.some.inj h]
  · rw [hdrop] at h
    exact dropKey_cursor h

theorem dropStaleKey_inFlow (h : x.dropStaleKey = some y) : y.inFlow = x.inFlow := by
  rcases dropStaleKey_cases x with hsame | hdrop
  · rw [hsame] at h
    rw [Option.some.inj h]
  · rw [hdrop] at h
    exact (dropKey_place h).1

theorem inFlow_outdentTo (x : Lexer) (column : Int) : (x.outdentTo column).inFlow = x.inFlow := by
  unfold outdentTo
  split
  · rfl
  · rfl

theorem atBlock_outdentTo {z : Lexer} (hz : x.dropStaleKey = some z) (column : Int) :
    (z.outdentTo column).atBlock = x.atBlock := by
  rw [atBlock, atBlock, inFlow_outdentTo, outdentTo_cursor, dropStaleKey_inFlow hz,
    dropStaleKey_cursor hz]

theorem stepHere_of_token {z : Lexer} {d : Char} {rest : Text} (hz : x.dropStaleKey = some z)
    (hrest : x.cursor.rest = d :: rest) (fuel : Nat) :
    stepHere fuel x = ((z.outdentTo x.cursor.column).readToken fuel d rest).map (false, ·) := by
  unfold stepHere
  rw [hz, Option.bind_some]
  dsimp only
  rw [outdentTo_cursor, dropStaleKey_cursor hz, hrest]

/-- Whether a run reads a block scalar up to the end of the text. -/
def endsInBlock : Nat → Lexer → Bool
  | 0, _ => false
  | fuel + 1, x =>
    match x.step (fuel + 1) with
    | some (false, y) =>
      (Lexer.skipGap (fuel + 1) x).atBlock && y.cursor.rest.isEmpty || endsInBlock fuel y
    | _ => false

theorem of_endsInBlock (h : endsInBlock (fuel + 1) x = false)
    (hy : stepHere (fuel + 1) (Lexer.skipGap (fuel + 1) x) = some (false, y)) :
    ((Lexer.skipGap (fuel + 1) x).atBlock → y.cursor.rest ≠ []) ∧ endsInBlock fuel y = false := by
  rw [endsInBlock, step_eq, hy] at h
  obtain ⟨hhere, hrest⟩ := Bool.or_eq_false_iff.1 h
  refine ⟨fun hblock hnil ↦ ?_, hrest⟩
  rw [hblock, hnil] at hhere
  cases hhere

theorem tokensHere_within {left left' : Nat} (hne : x.cursor.rest ≠ [])
    (hmargin : x.cursor.rest.head?.any isMargin = false)
    (hblock : ∀ z, stepHere fuel x = some (false, z) → x.atBlock → z.cursor.rest ≠ [])
    (hfuel : x.cursor.rest.length < fuel) (hfuel' : x.cursor.rest.length + f.behind.length < fuel')
    (hrun : ∀ {z z' : Lexer}, stepHere fuel x = some (false, z) → z.Follows f z' →
      z.cursor.rest.length < x.cursor.rest.length → run left' z' = run left z) :
    tokensHere fuel' left' (x.within f) = tokensHere fuel left x := by
  obtain ⟨d, rest, hrest⟩ := List.exists_cons_of_ne_nil hne
  cases hz : x.dropStaleKey with
  | none =>
    have hz' : (x.within f).dropStaleKey = none := by
      rw [dropStaleKey_within, hz]
      rfl
    unfold tokensHere stepHere
    rw [hz, hz']
    rfl
  | some z =>
    have hz' : (x.within f).dropStaleKey = some (z.within f) := by
      rw [dropStaleKey_within, hz]
      rfl
    have hrest' : (x.within f).cursor.rest = d :: (rest ++ f.behind) := by
      change x.cursor.rest ++ f.behind = _
      rw [hrest]
      rfl
    have hcolumn : (x.within f).cursor.column = x.cursor.column := rfl
    have hhere : (z.outdentTo x.cursor.column).cursor.rest = d :: rest := by
      rw [outdentTo_cursor, dropStaleKey_cursor hz, hrest]
    have hatBlock := atBlock_outdentTo hz x.cursor.column
    have hstep := stepHere_of_token hz hrest fuel
    have hstep' := stepHere_of_token hz' hrest' fuel'
    rw [hcolumn, outdentTo_within] at hstep'
    unfold tokensHere
    rw [hstep, hstep']
    rw [hstep] at hblock hrun
    generalize z.outdentTo x.cursor.column = k at hhere hatBlock hblock hrun ⊢
    rw [hrest] at hmargin hfuel hfuel' hrun
    have hleft (hat : k.atBlock) (l : Lexer) (hl : k.readToken fuel d rest = some l) :
        l.cursor.rest ≠ [] := by
      rw [hl] at hblock
      exact hblock l rfl (hatBlock ▸ hat)
    have htoken : InStep f rest (k.readToken fuel d rest)
        ((k.within f).readToken fuel' d (rest ++ f.behind)) :=
      readToken_inStep hhere hmargin hleft (hhere ▸ hfuel) (hhere ▸ hfuel')
    generalize k.readToken fuel d rest = r at htoken hrun ⊢
    generalize (k.within f).readToken fuel' d (rest ++ f.behind) = s at htoken ⊢
    cases htoken with
    | failed => rfl
    | read h hx => exact hrun rfl h (Nat.lt_succ_of_le hx.length_le)

theorem tokensHere_follows {gap gap' left left' : Nat} (h : x.Follows f y)
    (hblock : ∀ z, stepHere fuel (Lexer.skipGap gap x) = some (false, z) →
      (Lexer.skipGap gap x).atBlock → z.cursor.rest ≠ [])
    (hgap : x.cursor.rest.length < gap)
    (hgap' : x.cursor.rest.length + f.behind.length < gap') (hfuel : x.cursor.rest.length < fuel)
    (hfuel' : x.cursor.rest.length + f.behind.length < fuel')
    (hrun : ∀ {z z' : Lexer}, stepHere fuel (Lexer.skipGap gap x) = some (false, z) → z.Follows f z' →
      z.cursor.rest.length < x.cursor.rest.length → run left' z' = run left z) :
    tokensHere fuel' left' (Lexer.skipGap gap' y) = tokensHere fuel left (Lexer.skipGap gap x) := by
  have hfollows := h.skipGap hgap hgap'
  have hlength := (skipGap_suffix gap x).length_le
  have hmargin := head?_skipGap hgap
  by_cases hx : (Lexer.skipGap gap x).cursor.rest = []
  · have hy : (Lexer.skipGap gap' y).cursor.rest = [] := by
      have hbehind := hfollows.cursor.suffix_behind hx
      have hmargin' := head?_skipGap (h.cursor.length_le.trans_lt hgap')
      cases hrest : (Lexer.skipGap gap' y).cursor.rest with
      | nil => rfl
      | cons z rest =>
        rw [hrest] at hbehind hmargin'
        exact absurd (f.margin z (hbehind.subset List.mem_cons_self)) (Bool.eq_false_iff.1 hmargin')
    rw [tokensHere_of_end hx, tokensHere_of_end hy, hfollows.ending]
  · rw [hfollows.eq_within hx]
    exact tokensHere_within hx hmargin hblock (by omega) (by omega) fun hz hfollows hlt ↦
      hrun hz hfollows (hlt.trans_le hlength)

theorem run_follows (h : x.Follows f y) (hblock : endsInBlock fuel x = false)
    (hfuel : x.cursor.rest.length < fuel) (hfuel' : x.cursor.rest.length + f.behind.length < fuel') :
    run fuel' y = run fuel x := by
  induction fuel generalizing fuel' x y with
  | zero => exact absurd hfuel (Nat.not_lt_zero _)
  | succ fuel ih =>
    obtain ⟨fuel', rfl⟩ := Nat.exists_eq_add_one.2 (Nat.zero_lt_of_lt hfuel')
    rw [run_succ, run_succ]
    refine tokensHere_follows h (fun z hz ↦ (of_endsInBlock hblock hz).1) hfuel hfuel' hfuel hfuel'
      fun hz hfollows hlt ↦ ?_
    exact ih hfollows (of_endsInBlock hblock hz).2 (by omega) (by omega)

theorem all_getLast?_of_suffix {p : Char → Bool} (h : t <:+ m) (hm : m.getLast?.all p) :
    t.getLast?.all p := by
  obtain ⟨before, rfl⟩ := h
  cases t with
  | nil => rfl
  | cons z t =>
    rw [List.getLast?_append, List.getLast?_cons, Option.some_or] at hm
    rw [List.getLast?_cons]
    exact hm

theorem exists_break {lead : Text} (hlead : ∀ c ∈ lead, isMargin c) (hlast : lead.getLast?.all isBreak)
    (hne : lead ≠ []) :
    ∃ spaces b rest, lead = spaces ++ b :: rest ∧ (∀ c ∈ spaces, c == ' ') ∧ isBreak b := by
  have happend := List.takeWhile_append_dropWhile (p := fun c ↦ c == ' ') (l := lead)
  have hspaces (c : Char) (hc : c ∈ lead.takeWhile fun c ↦ c == ' ') : c == ' ' :=
    List.mem_takeWhile_imp (p := fun c ↦ c == ' ') hc
  cases hdrop : lead.dropWhile fun c ↦ c == ' ' with
  | nil =>
    rw [hdrop, List.append_nil] at happend
    rw [happend] at hspaces
    have hspace := hspaces _ (List.getLast_mem hne)
    rw [List.getLast?_eq_some_getLast hne, beq_iff_eq.1 hspace] at hlast
    cases hlast
  | cons b rest =>
    have hhead := List.head?_dropWhile_not (fun c ↦ c == ' ') lead
    rw [hdrop] at hhead happend
    refine ⟨_, b, rest, happend.symm, hspaces, ?_⟩
    have hb := hlead b (happend ▸ List.mem_append_right _ List.mem_cons_self)
    rw [isMargin, Bool.or_eq_true] at hb
    exact hb.resolve_left (Bool.eq_false_iff.1 hhead)

theorem skipMark_of_margin (h : c.rest.head?.any isMargin) : c.skipMark = c := by
  have hmark : (c.rest.head? == some '\uFEFF') = false := by
    cases hc : c.rest with
    | nil => rfl
    | cons z rest =>
      rw [hc] at h
      exact beq_of_isMargin (by decide) h
  rw [Cursor.skipMark, hmark, Bool.and_false]
  rfl

theorem ahead_of_break {spaces rest : Text} {b : Char} (hx : x.cursor.rest = spaces ++ b :: rest)
    (hspaces : ∀ c ∈ spaces, c == ' ') (hb : isBreak b) (hflow : x.inFlow = false)
    (hallowed : x.keyAllowed) : x.ahead.rest = b :: rest := by
  have hmargin : isMargin b := by rw [isMargin, hb, Bool.or_true]
  have hspace : (b == ' ') = false := by
    rw [beq_eq_false_iff_ne]
    rintro rfl
    cases hb
  have htab : (b == '\t') = false := by
    rw [beq_eq_false_iff_ne]
    rintro rfl
    cases hb
  have hmark : x.cursor.skipMark = x.cursor := by
    refine skipMark_of_margin ?_
    rw [hx]
    cases spaces with
    | nil => exact hmargin
    | cons z spaces =>
      have hz : isMargin z := by rw [isMargin, hspaces z List.mem_cons_self, Bool.true_or]
      exact hz
  have hskip : (x.cursor.skipWhile fun d ↦ d == ' ' || ((false || !true) && d == '\t')).rest =
      b :: rest := by
    rw [Cursor.skipWhile_rest, hx, List.dropWhile_append_of_pos fun z hz ↦ by
      rw [hspaces z hz, Bool.true_or]]
    exact List.dropWhile_cons_of_neg (by rw [hspace, htab]; decide)
  have hcomment : (b == '#') = false := beq_of_isMargin (by decide) hmargin
  unfold ahead
  rw [hmark, hflow, hallowed]
  dsimp only
  rw [hskip, List.head?_cons, Option.some_beq_some, hcomment, if_neg Bool.false_ne_true]
  exact hskip

theorem readBreak_of_break {rest : Text} {b : Char} (hc : c.rest = b :: (rest ++ u)) (hb : isBreak b)
    (hu : u.head? ≠ some '\n') :
    ∃ rest' offset line, c.readBreak.2 = ⟨rest' ++ u, offset, line, 0⟩ ∧ rest' <:+ rest := by
  obtain ⟨_, offset, line, column⟩ := c
  obtain rfl : _ = b :: (rest ++ u) := hc
  by_cases hcr : b = '\r' ∧ (rest ++ u).head? = some '\n'
  · obtain ⟨rfl, hhead⟩ := hcr
    cases rest with
    | nil => exact absurd hhead hu
    | cons z rest =>
      obtain rfl : z = '\n' := Option.some.inj hhead
      exact ⟨rest, offset + 2, line + 1, rfl, List.suffix_cons _ _⟩
  · rw [Cursor.readBreak_cons hcr, if_pos hb]
    exact ⟨rest, offset + b.utf8Size, line + 1, rfl, List.suffix_rfl⟩

theorem skipGap_lead {lead : Text} (hx : x.cursor.rest = lead ++ u) (hcolumn : x.cursor.column = 0)
    (hflow : x.inFlow = false) (hallowed : x.keyAllowed) (hlead : ∀ c ∈ lead, isMargin c)
    (hlast : lead.getLast?.all isBreak) (hu : u.head? ≠ some '\n') (hfuel : lead.length ≤ fuel) :
    ∃ left offset line, fuel ≤ left + lead.length ∧
      Lexer.skipGap fuel x = Lexer.skipGap left { x with cursor := ⟨u, offset, line, 0⟩ } := by
  induction hn : lead.length using Nat.strong_induction_on generalizing fuel lead x with
  | h n ih =>
    by_cases hne : lead = []
    · have hcursor : x.cursor = ⟨u, x.cursor.offset, x.cursor.line, 0⟩ := by
        rw [← hcolumn, ← List.nil_append u, ← hne, ← hx]
      refine ⟨fuel, x.cursor.offset, x.cursor.line, Nat.le_add_right _ _, ?_⟩
      rw [← hcursor]
    · obtain ⟨spaces, b, rest, rfl, hspaces, hb⟩ := exists_break hlead hlast hne
      rw [List.append_assoc, List.cons_append] at hx
      have hahead := ahead_of_break hx hspaces hb hflow hallowed
      obtain ⟨rest', offset, line, hbreak, hsuffix⟩ := readBreak_of_break hahead hb hu
      have hrest : rest' <:+ spaces ++ b :: rest :=
        hsuffix.trans ((List.suffix_cons b rest).trans (List.suffix_append spaces _))
      have hlength := hsuffix.length_le
      have hend : x.ahead.rest.head?.any isBreak := by
        rw [hahead]
        exact hb
      rw [List.length_append, List.length_cons] at hfuel hn
      obtain ⟨fuel, rfl⟩ : ∃ k, fuel = k + 1 := Nat.exists_eq_add_one.2 (by omega)
      have hstill : (x.keyAllowed || !x.inFlow) = x.keyAllowed := by rw [hallowed, Bool.true_or]
      rw [skipGap_succ, if_pos hend, hbreak, hstill]
      let z : Lexer := { x with cursor := ⟨rest' ++ u, offset, line, 0⟩ }
      have hz : z.cursor.rest = rest' ++ u := rfl
      have hlines : rest'.length ≤ fuel := by omega
      obtain ⟨left, offset', line', hleft, hskip⟩ := ih rest'.length (by omega) hz rfl hflow hallowed
        (fun c hc ↦ hlead c (hrest.subset hc)) (all_getLast?_of_suffix hrest hlast) hlines rfl
      exact ⟨left, offset', line', by omega, hskip⟩

end Lexer

/-- Whether the text ends in a block scalar. -/
def endsInBlock (t : Text) : Bool :=
  Lexer.endsInBlock (t.length + 2) (.atStart t)

section Framed

variable {lead behind : Text}

theorem all_isAllowed_of_margin (hm : ∀ c ∈ m, isMargin c) : m.all isAllowed := by
  have hallowed : ∀ c, isMargin c → (!isAllowed c) = false := not_of_isMargin (by rfl)
  refine List.all_eq_true.2 fun c hc ↦ ?_
  simpa using hallowed c (hm c hc)

variable (hlead : ∀ c ∈ lead, isMargin c) (hlast : lead.getLast?.all isBreak)
  (hbehind : ∀ c ∈ behind, isMargin c) (hblock : endsInBlock t = false)
  (hbreak : (t ++ behind).head? ≠ some '\n')

include hlead hlast hbehind hblock hbreak

/-- Empty lines before a text and behind it do not change its tokens. -/
theorem tokens_framed : tokens (lead ++ (t ++ behind)) = tokens t := by
  have hallowed : (lead ++ (t ++ behind)).all isAllowed = t.all isAllowed := by
    rw [List.all_append, List.all_append, all_isAllowed_of_margin hlead,
      all_isAllowed_of_margin hbehind, Bool.true_and, Bool.and_true]
  let whole := lead ++ (t ++ behind)
  have hlength : whole.length = lead.length + (t.length + behind.length) := by
    rw [List.length_append, List.length_append]
  have hwhole : (Lexer.atStart whole).cursor.rest = lead ++ (t ++ behind) := rfl
  have hfuel : lead.length ≤ whole.length + 2 := by omega
  obtain ⟨left, offset, line, hleft, hskip⟩ :=
    Lexer.skipGap_lead hwhole rfl rfl rfl hlead hlast hbreak hfuel
  let f : Frame := ⟨offset, line, behind, hbehind⟩
  have hstart : (Lexer.atStart t).Follows f
      { Lexer.atStart whole with cursor := ⟨t ++ behind, offset, line, 0⟩ } :=
    Lexer.follows_within (.atStart t) f
  unfold tokens
  rw [hallowed, guard_bind_eq_ite, guard_bind_eq_ite]
  refine if_congr Iff.rfl ?_ rfl
  change Lexer.run (whole.length + 2) (.atStart whole) = _
  rw [Lexer.run_succ, Lexer.run_succ, hskip]
  refine Lexer.tokensHere_follows hstart (fun z hz ↦ (Lexer.of_endsInBlock hblock hz).1)
    (Nat.lt_add_of_pos_right Nat.two_pos) ?_ (Nat.lt_add_of_pos_right Nat.two_pos) ?_
    fun hz hfollows hlt ↦ ?_
  · change t.length + behind.length < left
    omega
  · change t.length + behind.length < whole.length + 1 + 1
    omega
  · change _ < t.length at hlt
    refine Lexer.run_follows hfollows (Lexer.of_endsInBlock hblock hz).2 (by omega) ?_
    change _ + behind.length < whole.length + 1
    omega

theorem read_framed : read (lead ++ (t ++ behind)) = read t := by
  unfold read readDocument
  rw [tokens_framed hlead hlast hbehind hblock hbreak]

end Framed

example : endsInBlock "a: x > y".toList = false := by decide +kernel

example : endsInBlock "a: >\n  x".toList = true := by decide +kernel

end TildeMerge.Yaml
