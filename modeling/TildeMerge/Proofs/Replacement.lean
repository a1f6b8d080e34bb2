import TildeMerge.Proofs.Composition
import TildeMerge.Proofs.Markup.Gaps

namespace TildeMerge

open Markup

variable {α β : Type} {e : Engine} {record : Value} {b : Block} {t u x : Text} {err : Error}

theorem mapM_result (f : α → Logged β) (l : List α) :
    (l.mapM f).result = l.mapM fun a ↦ (f a).result := by
  induction l with
  | nil => rfl
  | cons a l ih =>
    simp only [List.mapM_cons, Logged.bind_result, ih]
    rfl

/-- What comes of a block: the reply of the directive that its head names, or the error that it names
none or one that is not registered. -/
inductive Engine.Gives (e : Engine) (record : Value) (b : Block) : Except Error Text → Prop
  | noHead (h : b.head = none) : Gives e record b (.error (.unknownDirective b.headLine.trim))
  | unregistered {head : Head} (h : b.head = some head)
      (hd : e.directives.table.lookup head.directive = none) :
      Gives e record b (.error (.unknownDirective head.directive))
  | reply {head : Head} {directive : Directive} (h : b.head = some head)
      (hd : e.directives.table.lookup head.directive = some directive) :
      Gives e record b (directive head b.body record e.options).result

/-- Hands a block to its directive. -/
def Engine.handOver (e : Engine) (record : Value) (b : Block) : Logged Text :=
  match b.head with
  | none => Logged.fail (.unknownDirective b.headLine.trim)
  | some head => do
    Logged.tell (.renderingBlock head.directive (head.collection.getD []))
    e.directives.dispatch head b.body record e.options

theorem handOver_of_head {head : Head} (h : b.head = some head) :
    (e.handOver record b).result = (e.directives.dispatch head b.body record e.options).result := by
  rw [Engine.handOver, h, Logged.bind_result]
  rfl

theorem handOver_of_mem_blocks (h : b ∈ blocks u) :
    e.handOver record b = e.renderBlock (b.region u) record := by
  conv_lhs => rw [eq_ofRegion_of_mem_blocks h]
  rfl

theorem gives_iff {r : Except Error Text} :
    e.Gives record b r ↔ (e.handOver record b).result = r := by
  constructor
  · intro h
    cases h with
    | noHead h => rw [Engine.handOver, h, Logged.fail_result]
    | unregistered h hd => rw [handOver_of_head h, Directives.dispatch, hd, Logged.fail_result]
    | reply h hd => rw [handOver_of_head h, Directives.dispatch, hd]
  · rintro rfl
    cases hhead : b.head with
    | none =>
      rw [Engine.handOver, hhead]
      exact .noHead hhead
    | some head =>
      rw [handOver_of_head hhead, Directives.dispatch]
      cases hd : e.directives.table.lookup head.directive with
      | none => exact .unregistered hhead hd
      | some directive => exact .reply hhead hd

theorem mapM_handOver (e : Engine) (record : Value) (u : Text) :
    (blocks u).mapM (e.handOver record) =
      ((blocks u).map (Block.region · u)).mapM fun region ↦ e.renderBlock region record := by
  rw [List.mapM_map]
  exact mapM_congr fun b hb ↦ handOver_of_mem_blocks hb

theorem alternate_modifyHead {gs : List Text} (h : gs ≠ []) (g : Text) (ts : List Text) :
    Text.alternate (gs.modifyHead (g ++ ·)) ts = g ++ Text.alternate gs ts := by
  obtain ⟨g', gs, rfl⟩ := List.exists_cons_of_ne_nil h
  cases ts with
  | nil => exact List.append_assoc g g' gs.flatten
  | cons t ts => simp [Text.alternate]

theorem renderSections_eq (e : Engine) (record : Value) (ss : List Section) :
    e.renderSections record ss = Text.alternate (sectionGaps ss) <$>
      (ss.filterMap Section.region?).mapM fun region ↦ e.renderBlock region record := by
  induction ss with
  | nil => rfl
  | cons sec ss ih =>
    cases sec with
    | plain c =>
      rw [Engine.renderSections, ih, Functor.map_map]
      congr 1
      funext replies
      exact (alternate_modifyHead (sectionGaps_ne_nil ss) [c] replies).symm
    | block region =>
      have hregions : (Section.block region :: ss).filterMap Section.region? =
          region :: ss.filterMap Section.region? := rfl
      simp only [Engine.renderSections, ih, hregions, List.mapM_cons, sectionGaps, ← bind_pure_comp,
        bind_assoc, pure_bind, Text.alternate, List.nil_append]

theorem blockPass_eq (e : Engine) (record : Value) (u : Text) :
    e.blockPass u record = do
      Logged.tell .blockPass
      let replies ← (blocks u).mapM (e.handOver record)
      Engine.reportUnclosed (leftovers (tail (sections u)))
      return Text.alternate (u.gaps ((blocks u).map Block.span)) replies := by
  rw [mapM_handOver, map_region_blocks, gaps_blocks]
  simp only [Engine.blockPass, renderSections_eq, ← bind_pure_comp, bind_assoc, pure_bind]

theorem blockPass_result_eq (e : Engine) (record : Value) (u : Text) :
    (e.blockPass u record).result =
      Text.alternate (u.gaps ((blocks u).map Block.span)) <$>
        (blocks u).mapM fun b ↦ (e.handOver record b).result := by
  rw [blockPass_eq, ← mapM_result]
  simp only [Logged.bind_result, Logged.tell_result, reportUnclosed_result]
  cases ((blocks u).mapM (e.handOver record)).result <;> rfl

theorem blockPass_log (h : (e.blockPass u record).result = .ok x) :
    (e.blockPass u record).log = .blockPass :: ((blocks u).mapM (e.handOver record)).log ++
      (Engine.reportUnclosed (leftovers (tail (sections u)))).log := by
  rw [blockPass_result_eq, ← mapM_result] at h
  obtain ⟨replies, hreplies, -⟩ := map_eq_ok.1 h
  rw [blockPass_eq, Logged.bind_eq_of_ok _ (Logged.tell_result _),
    Logged.bind_eq_of_ok _ hreplies, Logged.bind_eq_of_ok _ (reportUnclosed_result _),
    Logged.pure_log, List.append_nil]
  rfl

theorem blockPass_eq_ok : (e.blockPass u record).result = .ok x ↔
    ∃ replies, List.Forall₂ (fun b d ↦ e.Gives record b (.ok d)) (blocks u) replies ∧
      x = Text.alternate (u.gaps ((blocks u).map Block.span)) replies := by
  simp only [blockPass_result_eq, map_eq_ok, mapM_eq_ok, gives_iff, @eq_comm _ x]

theorem blockPass_eq_error : (e.blockPass u record).result = .error err ↔
    ∃ done b rest, blocks u = done ++ b :: rest ∧ (∀ a ∈ done, ∃ d, e.Gives record a (.ok d)) ∧
      e.Gives record b (.error err) := by
  simp only [blockPass_result_eq, gives_iff, map_eq_error]
  exact mapM_eq_error

/-- The second pass changes blocks only. It hands them to their directives, once each and in order, and
its text is that of the gaps with the replies between them, as they are; or its error is that of the
first block which has one. So a text without a closer is its own result. -/
theorem blockPass_replaces (e : Engine) (record : Value) (u : Text) :
    (∀ x, (e.blockPass u record).result = .ok x ↔
      ∃ replies, List.Forall₂ (fun b d ↦ e.Gives record b (.ok d)) (blocks u) replies ∧
        x = Text.alternate (u.gaps ((blocks u).map Block.span)) replies) ∧
    (∀ err, (e.blockPass u record).result = .error err ↔
      ∃ done b rest, blocks u = done ++ b :: rest ∧ (∀ a ∈ done, ∃ d, e.Gives record a (.ok d)) ∧
        e.Gives record b (.error err)) ∧
    (e.blockPass u record = do
      Logged.tell .blockPass
      let replies ← (blocks u).mapM (e.handOver record)
      Engine.reportUnclosed (leftovers (tail (sections u)))
      return Text.alternate (u.gaps ((blocks u).map Block.span)) replies) ∧
    (¬ closing <:+: u → (e.blockPass u record).result = .ok u) := by
  refine ⟨fun x ↦ blockPass_eq_ok, fun err ↦ blockPass_eq_error, blockPass_eq e record u,
    fun hnone ↦ ?_⟩
  rw [blockPass_result, sections_of_toCloser_eq_none (toCloser_eq_none hnone),
    renderSections_plain, Logged.pure_result]

def quotingEngine : Engine :=
  ({} : Engine).register ['q'] fun _ body _ _ ↦ pure ('~' :: 'n' :: body ++ closing)

def quotedBlock : Text :=
  '~' :: opener ++ ['q', '\n', '.', 'x', '\n'] ++ closing ++ closing

theorem blockPass_replaces_quotedBlock :
    (quotingEngine.blockPass quotedBlock .null).result =
        .ok ('~' :: ['~', 'n', '.', 'x'] ++ closing ++ closing) ∧
      ¬ closing <:+: opener ++ ['q'] ∧
      (quotingEngine.blockPass (opener ++ ['q']) .null).result = .ok (opener ++ ['q']) := by
  have hblocks : blocks quotedBlock = [⟨1, 13, ['~', '.', 'q'], ['.', 'x']⟩] := by decide
  have hnone : ¬ closing <:+: opener ++ ['q'] := by decide
  refine ⟨((blockPass_replaces quotingEngine .null quotedBlock).1 _).2
    ⟨[['~', 'n', '.', 'x'] ++ closing], ?_, by decide⟩, hnone,
    (blockPass_replaces quotingEngine .null (opener ++ ['q'])).2.2.2 hnone⟩
  rw [hblocks]
  exact .cons (gives_iff.2 rfl) .nil

end TildeMerge
