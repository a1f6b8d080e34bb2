import TildeMerge.Proofs.Document.Filling
import TildeMerge.Proofs.Text.Lines

namespace TildeMerge.Document

open Markup

variable {record : Value} {options : Options} {body : List BodyPart} {d d' : List Part}

def Part.sections : Part → List Section
  | literal t => t.map .plain
  | scalar path => ('~' :: path).map .plain
  | block collection body => [.block (opener ++ blockInside collection body ++ closing)]

theorem tilde_notMem_printBody (hb : FilledBody body) : '~' ∉ printBody body := by
  induction body with
  | nil => simp [printBody]
  | cons part rest ih =>
    rw [printBody_cons, List.mem_append, not_or]
    cases part with
    | literal s => exact ⟨hb.1, ih hb.2.2⟩
    | item path =>
      obtain ⟨-, hp, -, hrest⟩ := hb
      exact ⟨by simpa [BodyPart.print] using hp.tilde_notMem, ih hrest⟩
    | scalar path => exact hb.elim

theorem tilde_notMem_blockInside {collection : Text} (hc : IsRun collection)
    (hb : FilledBody body) : '~' ∉ blockInside collection body := by
  have hhead := tilde_notMem_headRest hc
  have hbody := tilde_notMem_printBody hb
  simp [blockInside, hhead, hbody]

theorem sections_print (hd : ∀ part ∈ d, part.Filled) :
    Markup.sections (print d) = d.flatMap Part.sections := by
  induction d with
  | nil => rfl
  | cons part rest ih =>
    rw [List.forall_mem_cons] at hd
    obtain ⟨hpart, hrest⟩ := hd
    rw [print_cons, List.flatMap_cons, ← ih hrest]
    cases part with
    | literal s => exact sections_append_of_plain hpart _
    | scalar path => exact hpart.elim
    | block collection body =>
      obtain ⟨-, hc, hb⟩ := hpart
      exact sections_opener_append (tilde_notMem_blockInside hc hb) (print rest)

theorem newline_notMem_head {collection : Text} (hc : IsRun collection) :
    '\n' ∉ opener ++ headRest collection := by
  have h := hc.newline_notMem
  simpa [opener, headRest, Directives.forKeyword] using h

theorem region_eq (collection : Text) (body : List BodyPart) :
    opener ++ blockInside collection body ++ closing =
      (opener ++ headRest collection) ++ '\n' :: (printBody body ++ '\n' :: closing) := by
  simp [blockInside]

theorem firstLine_region {collection : Text} (hc : IsRun collection) (body : List BodyPart) :
    (opener ++ blockInside collection body ++ closing).firstLine =
      opener ++ headRest collection := by
  rw [region_eq]
  exact Text.firstLine_append (newline_notMem_head hc) _

theorem bodyOf_region {collection : Text} (hc : IsRun collection) (body : List BodyPart) :
    bodyOf (opener ++ blockInside collection body ++ closing) = printBody body := by
  have hclosing : '\n' ∉ closing := by decide
  rw [region_eq, bodyOf, Text.afterFirstBreak_append (newline_notMem_head hc), Option.bind_some,
    Text.beforeLastBreak_append _ hclosing, Option.getD_some]

theorem parse_head {collection : Text} (hne : collection ≠ []) (hc : IsRun collection) :
    Head.parse (opener ++ headRest collection) = some ⟨Directives.forKeyword, some collection⟩ := by
  have hfor : IsRun Directives.forKeyword := by decide
  have hends : EndsRun (' ' :: '.' :: collection) := endsRun_cons.2 (by decide)
  have hpieces : itemPieces (opener ++ headRest collection) =
      [.plain '~', .placeholder Directives.forKeyword, .plain ' ', .placeholder collection] := by
    have htoken := itemPieces_placeholder hne hc endsRun_nil
    rw [List.append_nil] at htoken
    calc itemPieces (opener ++ headRest collection)
        = itemPieces ('~' :: '.' :: (Directives.forKeyword ++ ' ' :: '.' :: collection)) := rfl
      _ = .plain '~' :: .placeholder Directives.forKeyword ::
            itemPieces (' ' :: '.' :: collection) := by
          rw [itemPieces_cons (by decide), itemPieces_placeholder (by decide) hfor hends]
      _ = _ := by
          rw [itemPieces_cons (by decide), htoken]
          rfl
  rw [Head.parse, hpieces]
  rfl

def BodyPart.itemPieces : BodyPart → List Piece
  | literal t => t.map .plain
  | item path => [.placeholder path]
  | scalar _ => []

theorem itemPieces_printBody (hb : FilledBody body) :
    Markup.itemPieces (printBody body) = body.flatMap BodyPart.itemPieces := by
  induction body with
  | nil => rfl
  | cons part rest ih =>
    rw [printBody_cons, List.flatMap_cons]
    cases part with
    | literal s =>
      obtain ⟨-, hdot, hrest⟩ := hb
      rw [BodyPart.print, itemPieces_append_of_plain hdot, ih hrest]
      rfl
    | item path =>
      obtain ⟨hne, hp, hends, hrest⟩ := hb
      rw [BodyPart.print, List.cons_append, itemPieces_placeholder hne hp hends, ih hrest]
      rfl
    | scalar path => exact hb.elim

theorem scalars_eq_nil (hb : FilledBody body) : ∀ part ∈ body, part.scalars = [] := by
  induction body with
  | nil =>
    intro part hpart
    cases hpart
  | cons part rest ih =>
    rw [List.forall_mem_cons]
    cases part with
    | literal s => exact ⟨rfl, ih hb.2.2⟩
    | item path => exact ⟨rfl, ih hb.2.2.2⟩
    | scalar path => exact hb.elim

theorem splice_item_result (record : Value) (hb : FilledBody body) (item : Value) :
    (splice (resolveIn item options.missing) (Markup.itemPieces (printBody body))).result =
      evalBody record options item body := by
  have hpart : ∀ part ∈ body,
      (splice (resolveIn item options.missing) part.itemPieces).result =
        id <$> part.eval record options item := by
    intro part hpart
    rw [id_map]
    cases part with
    | literal s => exact congrArg Logged.result (splice_plain _ s)
    | item path => exact splice_placeholder_result item options.missing path
    | scalar path => exact absurd (scalars_eq_nil hb _ hpart) (List.cons_ne_nil _ _)
  have hflat : (List.flatMap id : List Text → Text) = List.flatten := funext fun _ ↦ List.flatMap_id
  rw [itemPieces_printBody hb, splice_flatMap_result _ hpart, evalBody, hflat]

theorem renderItems_result (record : Value) (hb : FilledBody body) (items : List Value) :
    (Directive.renderItems (Markup.itemPieces (printBody body)) options items).result =
      evalItems record options body items := by
  induction items with
  | nil => rfl
  | cons item rest ih =>
    rw [Directive.renderItems, Logged.bind_result, splice_item_result record hb item]
    simp only [Logged.map_result, ih, evalItems, List.mapM_cons]
    cases evalBody record options item body with
    | error e => rfl
    | ok t => cases rest.mapM fun item ↦ (· ++ options.terminator) <$>
        evalBody record options item body <;> rfl

theorem forEach_result (hb : FilledBody body) (collection : Text) :
    (Directive.forEach ⟨Directives.forKeyword, some collection⟩ (printBody body) record
      options).result = (Part.block collection body).eval record options := by
  have hnone : bodyScalars body = [] := List.flatMap_eq_nil_iff.2 (scalars_eq_nil hb)
  simp only [Directive.forEach, Part.eval, hnone, Option.getD_some]
  cases record.lookup collection with
  | none => cases options.missing <;> rfl
  | some v =>
    cases v with
    | list items =>
      simp only [Logged.bind_result, renderItems_result record hb]
      rfl
    | _ => rfl

theorem renderSections_part {part : Part} (hpart : part.Filled) :
    (({ options } : Engine).renderSections record part.sections).result =
      part.eval record options := by
  cases part with
  | literal s => exact congrArg Logged.result (renderSections_plain _ record s)
  | scalar path => exact hpart.elim
  | block collection body =>
    obtain ⟨hne, hc, hb⟩ := hpart
    have hblock : (({ options } : Engine).renderBlock
        (opener ++ blockInside collection body ++ closing) record).result =
          (Part.block collection body).eval record options := by
      rw [Engine.renderBlock, firstLine_region hc, parse_head hne hc]
      simp only [Logged.bind_result, Logged.tell_result, bodyOf_region hc]
      exact forEach_result hb collection
    simp only [Part.sections, Engine.renderSections, Logged.bind_result, hblock]
    cases (Part.block collection body).eval record options with
    | error e => rfl
    | ok t => exact congrArg Except.ok (List.append_nil t)

theorem blockPass_print (hd : ∀ part ∈ d, part.Filled) :
    (({ options } : Engine).blockPass (print d) record).result = eval record options d := by
  rw [blockPass_result, sections_print hd,
    renderSections_flatMap_result _ record fun part hpart ↦ renderSections_part (hd part hpart)]
  rfl

theorem Part.exists_scalars_of_eval {part : Part} {t : Text}
    (h : part.eval record options = .ok t) :
    ∃ ts, part.scalars.mapM (insertedText record options.missing) = .ok ts := by
  cases part with
  | literal s => exact ⟨[], rfl⟩
  | scalar path =>
    have hpath : insertedText record options.missing path = .ok t := h
    exact ⟨[t], by simp [Part.scalars, hpath]⟩
  | block collection body =>
    cases hbody : (bodyScalars body).mapM (insertedText record options.missing) with
    | error e =>
      simp only [Part.eval, hbody] at h
      cases h
    | ok ts => exact ⟨ts, hbody⟩

theorem exists_scalars_of_eval {out : Text} (h : eval record options d = .ok out) :
    ∃ ts, (scalars d).mapM (insertedText record options.missing) = .ok ts := by
  obtain ⟨texts, htexts, -⟩ := map_eq_ok.1 h
  clear h
  induction d generalizing texts with
  | nil => exact ⟨[], rfl⟩
  | cons part rest ih =>
    obtain ⟨t, ts, hpart, hrest, -⟩ := mapM_cons_eq_ok.1 htexts
    obtain ⟨us, hus⟩ := Part.exists_scalars_of_eval hpart
    obtain ⟨vs, hvs⟩ := ih ts hrest
    refine ⟨us ++ vs, ?_⟩
    rw [scalars, List.flatMap_cons, List.mapM_append, hus]
    rw [scalars] at hvs
    rw [hvs]
    rfl

/-- A render of a printed document asks for the fields of the record first, wherever they stand, and
then gives the value of the document. -/
theorem render_print_result (hd : WellFormed d) (hv : PlainValues record options d) :
    (({ options } : Engine).render (print d) record).result =
      (scalars d).mapM (insertedText record options.missing) >>= fun _ ↦
        eval record options d := by
  have hunit := unit_mapM_scalars record options.missing d
  rw [Engine.render, Logged.bind_result, scalarPass_print record _ options hd]
  cases hfill : d.mapM (Part.fill record options.missing) with
  | error e =>
    rw [hfill] at hunit
    cases hs : (scalars d).mapM (insertedText record options.missing) with
    | error e' =>
      rw [hs] at hunit
      exact congrArg _ (Except.error.inj hunit).symm
    | ok ts =>
      rw [hs] at hunit
      cases hunit
  | ok d' =>
    obtain ⟨ts, hts⟩ := exists_ok_of_unit_eq hunit hfill
    rw [hts, ← eval_fill hfill]
    exact blockPass_print (filled_fill hd hv hfill)

/-- A printed document renders if and only if the document has a value, and then to that value. If
all fields of the record that it asks for have texts, a failure is that of the document; otherwise
it is that of the first field without one. -/
theorem render_print (hd : WellFormed d) (hv : PlainValues record options d) :
    (∀ out, (({ options } : Engine).render (print d) record).result = .ok out ↔
      eval record options d = .ok out) ∧
    (∀ ts, (scalars d).mapM (insertedText record options.missing) = .ok ts →
      (({ options } : Engine).render (print d) record).result = eval record options d) ∧
    (∀ e, (scalars d).mapM (insertedText record options.missing) = .error e →
      (({ options } : Engine).render (print d) record).result = .error e) := by
  rw [render_print_result hd hv]
  refine ⟨fun out ↦ ⟨fun h ↦ ?_, fun h ↦ ?_⟩, fun ts hts ↦ ?_, fun e he ↦ ?_⟩
  · cases hs : (scalars d).mapM (insertedText record options.missing) with
    | error e =>
      rw [hs] at h
      cases h
    | ok ts =>
      rw [hs] at h
      exact h
  · obtain ⟨ts, hts⟩ := exists_scalars_of_eval h
    rw [hts]
    exact h
  · rw [hts]
    rfl
  · rw [he]
    rfl

def letter : List Part :=
  [.literal ['T', 'o', ' '], .scalar ['n', '.', 'x'], .literal ['\n'],
    .block ['x', 's'] [.literal ['-', ' '], .item ['q'], .literal [' '], .scalar ['c']],
    .literal ['i', 'n', 'g'], .scalar ['z']]

def letterRecord : Value :=
  .record [(['c'], .text ['E', 'U', 'R']), (['n', '.', 'x'], .text ['A', '.']),
    (['x', 's'], .list [.record [(['q'], .int 2)], .null])]

theorem render_print_letter :
    WellFormed letter ∧ PlainValues letterRecord {} letter ∧
      (({} : Engine).render (print letter) letterRecord).result =
        .ok ['T', 'o', ' ', 'A', '.', '\n', '-', ' ', '2', ' ', 'E', 'U', 'R', '\n', '-', ' ', 'u',
          'n', 'd', 'e', 'f', 'i', 'n', 'e', 'd', ' ', 'E', 'U', 'R', '\n', 'i', 'n', 'g', 'u', 'n',
          'd', 'e', 'f', 'i', 'n', 'e', 'd'] := by
  have hd : WellFormed letter := by decide
  have hv : PlainValues letterRecord {} letter := by decide
  exact ⟨hd, hv, ((render_print hd hv).1 _).2 (by decide)⟩

end TildeMerge.Document
