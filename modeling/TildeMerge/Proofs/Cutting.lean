import TildeMerge.Proofs.Markup.Ranges
import TildeMerge.Proofs.Repetition

namespace TildeMerge

open Markup

variable {t : Text} {cursor : Nat} {refs : List Placeholder} {bs : List Block}

/-- All ranges by which a render cuts the text, whether it is a template, the body of a block or what
stands behind the blocks. -/
structure SafeRanges (t : Text) : Prop where
  scalars : t.CanCutGaps 0 ((scalars t).map Placeholder.span)
  itemRefs : t.CanCutGaps 0 ((itemRefs t).map Placeholder.span)
  blocks : t.CanCutGaps 0 ((blocks t).map Block.span)
  region : ∀ b ∈ Markup.blocks t, t.CanCut b.start b.stop
  headLine : ∀ b ∈ Markup.blocks t, ∀ first, (b.region t).findBreak = some first →
    (b.region t).CanCut 0 first
  body : ∀ b ∈ Markup.blocks t, ∀ first last, (b.region t).findBreak = some first →
    (b.region t).findLastBreak = some last → first < last → (b.region t).CanCut (first + 1) last
  before_token : ∀ p ∈ tokensFrom 0 t, t.CanCut 0 p.1

theorem safeRanges (t : Text) : SafeRanges t where
  scalars := canCutGaps_scalars t
  itemRefs := canCutGaps_itemRefs t
  blocks := canCutGaps_blocks t
  region _ := canCut_region
  headLine _ _ _ := Text.canCut_firstLine
  body _ _ _ _ := Text.canCut_between
  before_token _ := canCut_token

/-- A computation that comes to nothing, not even an error, where a range cannot be cut out. -/
abbrev Cutting := OptionT Logged

def cutSplice (t : Text) (resolve : Text → Logged Text) (cursor : Nat) : List Placeholder → Cutting Text
  | [] => (t.cut? cursor t.size).getM
  | p :: refs => do
    let gap ← (t.cut? cursor p.start).getM
    let text ← resolve p.path
    let rest ← cutSplice t resolve p.stop refs
    return gap ++ text ++ rest

theorem cutSplice_eq (resolve : Text → Logged Text) (h : t.CanCutGaps cursor (refs.map Placeholder.span)) :
    cutSplice t resolve cursor refs =
      liftM (Text.alternate (t.gapsFrom cursor (refs.map Placeholder.span)) <$>
        refs.mapM fun p ↦ resolve p.path) := by
  induction refs generalizing cursor with
  | nil =>
    rw [cutSplice, Text.cut?_of_canCut h]
    simp [Text.gapsFrom, Text.alternate]
  | cons p refs ih =>
    obtain ⟨hgap, hrest⟩ := h
    have hcut : t.cut? cursor p.start = _ := Text.cut?_of_canCut hgap
    rw [cutSplice, hcut, ih hrest]
    simp [Text.gapsFrom, Text.alternate, Placeholder.span]

theorem cutSplice_scalars (resolve : Text → Logged Text) (t : Text) :
    cutSplice t resolve 0 (scalars t) = liftM (splice resolve (scalarPieces t)) := by
  rw [cutSplice_eq resolve (canCutGaps_scalars t), splice_scalarPieces]
  rfl

theorem cutSplice_itemRefs (resolve : Text → Logged Text) (t : Text) :
    cutSplice t resolve 0 (itemRefs t) = liftM (splice resolve (itemPieces t)) := by
  rw [cutSplice_eq resolve (canCutGaps_itemRefs t), splice_itemPieces]
  rfl

def cutItems (body : Text) (options : Options) : List Value → Cutting Text
  | [] => return []
  | item :: items => do
    let text ← cutSplice body (resolveIn item options.missing) 0 (itemRefs body)
    let rest ← cutItems body options items
    return text ++ options.terminator ++ rest

def cutForEach (head : Head) (body : Text) (record : Value) (options : Options) : Cutting Text :=
  match record.lookup head.path with
  | some (.list items) => do
    Logged.tell (.renderingItems items.length head.path)
    cutItems body options items
  | some _ => liftM (Logged.fail (.notACollection head.path) : Logged Text)
  | none => do
    let _ ← options.missing.fill head.path
    return []

open Classical in
/-- A directive that repeats the body cuts it up. What any other one does with a block is its own
affair. -/
noncomputable def Directive.cut (directive : Directive) (head : Head) (body : Text) (record : Value)
    (options : Options) : Cutting Text :=
  if directive = .forEach then cutForEach head body record options
  else liftM (directive head body record options)

noncomputable def Directives.cutDispatch (ds : Directives) (head : Head) (body : Text) (record : Value)
    (options : Options) : Cutting Text :=
  match ds.table.lookup head.directive with
  | some directive => directive.cut head body record options
  | none => liftM (Logged.fail (.unknownDirective head.directive) : Logged Text)

theorem cutItems_eq (body : Text) (options : Options) (items : List Value) :
    cutItems body options items = liftM (Directive.renderItems (itemPieces body) options items) := by
  induction items with
  | nil => simp [cutItems, Directive.renderItems]
  | cons item items ih =>
    rw [cutItems, cutSplice_itemRefs, ih, Directive.renderItems]
    simp

theorem cutForEach_eq (head : Head) (body : Text) (record : Value) (options : Options) :
    cutForEach head body record options = liftM (Directive.forEach head body record options) := by
  have hpath : head.collection.getD [] = head.path := rfl
  unfold cutForEach Directive.forEach
  simp only [hpath]
  cases record.lookup head.path with
  | none => simp
  | some v =>
    cases v with
    | list items =>
      dsimp only
      rw [cutItems_eq, liftM_bind]
    | _ => rfl

theorem Directive.cut_eq (directive : Directive) (head : Head) (body : Text) (record : Value)
    (options : Options) :
    directive.cut head body record options = liftM (directive head body record options) := by
  unfold Directive.cut
  split
  · rename_i h
    rw [cutForEach_eq, h]
  · rfl

theorem Directives.cutDispatch_eq (ds : Directives) (head : Head) (body : Text) (record : Value)
    (options : Options) :
    ds.cutDispatch head body record options = liftM (ds.dispatch head body record options) := by
  unfold Directives.cutDispatch Directives.dispatch
  cases ds.table.lookup head.directive with
  | none => rfl
  | some directive => exact directive.cut_eq head body record options

namespace Engine

/-- The text from the cursor on, with every block of the ranges replaced. Openers are looked for behind
the last one. -/
noncomputable def cutBlocks (e : Engine) (record : Value) (t : Text) (cursor : Nat) :
    List (Nat × Nat) → Cutting Text
  | [] => do
    let rest ← (t.cut? cursor t.size).getM
    let left ← (cutLeftovers? rest).getM
    reportUnclosed left
    return rest
  | (start, stop) :: spans => do
    let b ← (cutBlock? t start stop).getM
    match b.head with
    | none => liftM (Logged.fail (.unknownDirective b.headLine.trim) : Logged Text)
    | some head => do
      Logged.tell (.renderingBlock head.directive (head.collection.getD []))
      let gap ← (t.cut? cursor start).getM
      let reply ← e.directives.cutDispatch head b.body record e.options
      let rest ← e.cutBlocks record t stop spans
      return gap ++ reply ++ rest

noncomputable def cutRender (e : Engine) (template : Text) (record : Value) : Cutting Text := do
  Logged.tell .scalarPass
  let text ← cutSplice template (resolveIn record e.options.missing) 0 (scalars template)
  Logged.tell .blockPass
  e.cutBlocks record text 0 ((blocks text).map Block.span)

end Engine

theorem cutBlocks_eq (e : Engine) (record : Value) (h : t.CanCutGaps cursor (bs.map Block.span))
    (hb : ∀ b ∈ bs, cutBlock? t b.start b.stop = some b) :
    e.cutBlocks record t cursor (bs.map Block.span) = liftM (do
      let replies ← bs.mapM (e.handOver record)
      Engine.reportUnclosed
        (leftovers ((t.gapsFrom cursor (bs.map Block.span)).getLast?.getD []))
      return Text.alternate (t.gapsFrom cursor (bs.map Block.span)) replies) := by
  induction bs generalizing cursor with
  | nil =>
    rw [List.map_nil, Engine.cutBlocks, Text.cut?_of_canCut h]
    simp [cutLeftovers?_eq, Text.gapsFrom, Text.alternate]
  | cons b bs ih =>
    obtain ⟨hgap, hrest⟩ := h
    have hcut : t.cut? cursor b.start = _ := Text.cut?_of_canCut hgap
    rw [List.forall_mem_cons] at hb
    have hlast : (t.gapsFrom cursor ((b.start, b.stop) :: bs.map Block.span)).getLast? =
        (t.gapsFrom b.stop (bs.map Block.span)).getLast? :=
      List.getLast?_cons_of_ne_nil (t.gapsFrom_ne_nil _ _)
    rw [List.map_cons, Block.span, Engine.cutBlocks, hb.1, List.mapM_cons, hlast, Engine.handOver]
    simp only [Option.getM_some, pure_bind, hcut, ih hrest hb.2, Directives.cutDispatch_eq]
    cases b.head with
    | none => rfl
    | some head => simp [Text.gapsFrom, Text.alternate]

theorem cutBlocks_blocks (e : Engine) (record : Value) (t : Text) :
    (do
      Logged.tell .blockPass
      e.cutBlocks record t 0 ((blocks t).map Block.span)) =
      (liftM (e.blockPass t record) : Cutting Text) := by
  rw [cutBlocks_eq e record (canCutGaps_blocks t) fun b ↦ cutBlock?_of_mem_blocks, ← Text.gaps,
    getLast?_gaps_blocks, Option.getD_some, blockPass_eq, ← liftM_bind]

theorem cutRender_eq (e : Engine) (template : Text) (record : Value) :
    e.cutRender template record = liftM (e.render template record) := by
  unfold Engine.cutRender Engine.render Engine.scalarPass
  simp only [cutSplice_scalars, cutBlocks_blocks, liftM_bind, bind_assoc]

/-- Every range by which a text is cut lies within it, with its ends in order and between characters. So a
render that cuts a template, the text of its first pass and the bodies of its blocks by these ranges always
goes through, and it logs and gives what a render does, for every engine and record. -/
theorem every_range_can_be_cut :
    (∀ t, SafeRanges t) ∧
      ∀ (e : Engine) (template : Text) (record : Value),
        e.cutRender template record = liftM (e.render template record) :=
  ⟨safeRanges, cutRender_eq⟩

end TildeMerge
