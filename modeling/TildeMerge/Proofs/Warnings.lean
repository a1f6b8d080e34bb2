import TildeMerge.Proofs.Repetition
import TildeMerge.Proofs.Strictness

namespace TildeMerge

open Markup

variable {α β : Type} {x : Logged α} {ws vs : List LogEntry} {policy : GapPolicy} {terminator : Text}
variable {record : Value} {t : Text}

/-- If the computation has a value, then these are its warnings. -/
def Warns (x : Logged α) (ws : List LogEntry) : Prop :=
  ∀ a, x.result = .ok a → x.warnings = ws

namespace Warns

theorem pure (a : α) : Warns (pure a : Logged α) [] := by
  intro b _
  rfl

theorem fail (err : Error) : Warns (Logged.fail err : Logged α) [] := by
  intro b hb
  cases hb

theorem tell_debug {entry : LogEntry} (h : entry.isWarning = false) : Warns (Logged.tell entry) [] := by
  intro a _
  rw [Logged.warnings, Logged.tell_log, List.filter_singleton, h]
  rfl

theorem bind {f : α → Logged β} (hx : Warns x ws) (hf : ∀ a, x.result = .ok a → Warns (f a) vs) :
    Warns (x >>= f) (ws ++ vs) := by
  intro b hb
  rw [Logged.bind_result, bind_eq_ok] at hb
  obtain ⟨a, ha, hb⟩ := hb
  rw [Logged.bind_eq_of_ok f ha, Logged.warnings, List.filter_append, ← hx a ha, ← hf a ha b hb]
  rfl

theorem map (f : α → β) (hx : Warns x ws) : Warns (f <$> x) ws := by
  intro b hb
  obtain ⟨a, ha, -⟩ := map_eq_ok.1 hb
  exact hx a ha

theorem mapM {f : α → Logged β} {ws : α → List LogEntry} {l : List α}
    (h : ∀ a ∈ l, Warns (f a) (ws a)) : Warns (l.mapM f) (l.flatMap ws) := by
  induction l with
  | nil => exact .pure []
  | cons a l ih =>
    rw [List.forall_mem_cons] at h
    rw [List.mapM_cons, List.flatMap_cons]
    refine h.1.bind fun b _ ↦ ?_
    rw [bind_pure_comp]
    exact (ih h.2).map _

end Warns

def GapPolicy.report (policy : GapPolicy) (path : Text) : LogEntry :=
  .noValue path (if policy = .undefined then undefinedText else [])

def Value.gapsAmong (v : Value) (paths : List Text) : List Text :=
  paths.filter fun path ↦ (v.lookup path).isNone

/-- The gaps that a block meets: that of its collection, or for one item after the other those of the
fields that the body names. A block without a head, or with a collection that is no list, fails. -/
def Markup.Block.gaps (b : Block) (record : Value) : List Text :=
  match b.head with
  | none => []
  | some head =>
    match record.lookup head.path with
    | none => [head.path]
    | some (.list items) => items.flatMap fun item ↦
        item.gapsAmong ((itemRefs b.body).map Placeholder.path)
    | some _ => []

theorem warns_fill (policy : GapPolicy) (path : Text) :
    Warns (policy.fill path) [policy.report path] := by
  intro s hs
  cases policy with
  | undefined => rfl
  | empty => rfl
  | strict => cases hs

theorem warns_resolveIn (record : Value) (policy : GapPolicy) (path : Text) :
    Warns (resolveIn record policy path) ((record.gapsAmong [path]).map policy.report) := by
  rw [resolveIn, Value.gapsAmong, List.filter_singleton]
  cases record.lookup path with
  | some v => exact .pure _
  | none => exact warns_fill policy path

theorem warns_splice (record : Value) (policy : GapPolicy) (ps : List Piece) :
    Warns (splice (resolveIn record policy) ps)
      ((record.gapsAmong (ps.filterMap Piece.path?)).map policy.report) := by
  induction ps with
  | nil => exact .pure []
  | cons piece ps ih =>
    cases piece with
    | plain c => exact ih.map _
    | placeholder path =>
      have hsplit : record.gapsAmong ((.placeholder path :: ps).filterMap Piece.path?) =
          record.gapsAmong [path] ++ record.gapsAmong (ps.filterMap Piece.path?) :=
        List.filter_append [path] _
      rw [splice, hsplit, List.map_append]
      exact (warns_resolveIn record policy path).bind fun s _ ↦ ih.map _

theorem warns_renderItems (body : List Piece) (options : Options) (items : List Value) :
    Warns (Directive.renderItems body options items)
      ((items.flatMap fun item ↦ item.gapsAmong (body.filterMap Piece.path?)).map
        options.missing.report) := by
  induction items with
  | nil => exact .pure []
  | cons item items ih =>
    rw [Directive.renderItems, List.flatMap_cons, List.map_append]
    exact (warns_splice item options.missing body).bind fun s _ ↦ ih.map _

theorem warns_forEach {b : Block} {head : Head} (h : b.head = some head) (record : Value)
    (options : Options) : Warns (Directive.forEach head b.body record options)
      ((b.gaps record).map options.missing.report) := by
  unfold Directive.forEach Block.gaps
  rw [h]
  dsimp only [Head.path]
  cases record.lookup (head.collection.getD []) with
  | none => exact (warns_fill options.missing _).bind fun _ _ ↦ .pure []
  | some v =>
    cases v with
    | list items =>
      have hitems := warns_renderItems (itemPieces b.body) options items
      rw [← map_path_locate 0] at hitems
      exact (Warns.tell_debug rfl).bind fun _ _ ↦ hitems
    | _ => exact .fail _

theorem warns_handOver (record : Value) (b : Block) :
    Warns ((standardEngine policy terminator).handOver record b)
      ((b.gaps record).map policy.report) := by
  unfold Engine.handOver
  cases h : b.head with
  | none =>
    rw [Block.gaps, h]
    exact .fail _
  | some head =>
    refine (Warns.tell_debug rfl).bind fun _ _ ↦ ?_
    simp only [standardEngine, dispatch_standard]
    split
    · exact warns_forEach h record ⟨policy, terminator⟩
    · intro s hs
      cases hs

theorem warns_reportUnclosed (ls : List Leftover) : Warns (Engine.reportUnclosed ls)
    ((ls.filter Leftover.isUnclosed).map fun l ↦ .unclosed l.token) := by
  intro a _
  rw [Logged.warnings, reportUnclosed_log, List.filter_eq_self, List.forall_mem_map]
  intro l _
  rfl

def Markup.behindBlocks (t : Text) : Text :=
  match (blocks t).getLast? with
  | none => t
  | some b => t.dropBytes b.stop

theorem tail_sections (t : Text) : tail (sections t) = behindBlocks t := by
  obtain ⟨front, hsections, hfront⟩ := exists_front (sections t)
  generalize tail (sections t) = w at hsections ⊢
  have htext := sections_text t
  rw [hsections, List.flatMap_append, List.flatMap_map] at htext
  have hplain : w.flatMap (fun c ↦ (Section.plain c).text) = w := List.flatMap_singleton' w
  have hblocks : blocks t = locateBlocks 0 front := by
    rw [blocks, hsections, locateBlocks_append, locateBlocks_plain, List.append_nil]
  rw [hplain] at htext
  rw [behindBlocks, hblocks]
  rcases hfront with rfl | ⟨rest, region, rfl⟩
  · exact htext
  · have hlast : locateBlocks 0 (rest ++ [Section.block region]) =
        locateBlocks 0 rest ++ [.ofRegion (Text.size (rest.flatMap Section.text)) region] := by
      rw [locateBlocks_append, Nat.zero_add]
      rfl
    have hstop : (Block.ofRegion (Text.size (rest.flatMap Section.text)) region).stop =
        Text.size ((rest ++ [Section.block region]).flatMap Section.text) := by
      rw [List.flatMap_append, Text.size_append, List.flatMap_singleton]
      rfl
    rw [hlast, List.getLast?_concat, ← htext]
    dsimp only
    rw [hstop, Text.dropBytes_size_append]

theorem warns_scalarPass (record : Value) (t : Text) :
    Warns ((standardEngine policy terminator).scalarPass t record)
      ((record.gapsAmong ((scalars t).map Placeholder.path)).map policy.report) := by
  rw [scalars, map_path_locate]
  exact (Warns.tell_debug rfl).bind fun _ _ ↦ warns_splice record policy (scalarPieces t)

theorem warns_blockPass (record : Value) (u : Text) :
    Warns ((standardEngine policy terminator).blockPass u record)
      (((blocks u).flatMap (Block.gaps · record)).map policy.report ++
        ((leftovers (behindBlocks u)).filter Leftover.isUnclosed).map fun l ↦ .unclosed l.token) := by
  rw [blockPass_eq, tail_sections, List.map_flatMap]
  refine (Warns.tell_debug rfl).bind fun _ _ ↦ ?_
  refine (Warns.mapM fun b _ ↦ warns_handOver record b).bind fun replies _ ↦ ?_
  have hunclosed := (warns_reportUnclosed (leftovers (behindBlocks u))).bind
    fun _ _ ↦ Warns.pure (Text.alternate (u.gaps ((blocks u).map Block.span)) replies)
  rwa [List.append_nil] at hunclosed

theorem warns_render (record : Value) {t u : Text}
    (hu : ((standardEngine policy terminator).scalarPass t record).result = .ok u) :
    Warns ((standardEngine policy terminator).render t record)
      ((record.gapsAmong ((scalars t).map Placeholder.path)).map policy.report ++
        (((blocks u).flatMap (Block.gaps · record)).map policy.report ++
          ((leftovers (behindBlocks u)).filter Leftover.isUnclosed).map fun l ↦ .unclosed l.token)) := by
  refine (warns_scalarPass record t).bind fun u' hu' ↦ ?_
  obtain rfl : u = u' := Except.ok.inj (hu.symm.trans hu')
  exact warns_blockPass record u

theorem isUnclosed_eq (l : Leftover) :
    l.isUnclosed = (opener.isPrefixOf l.token && l.token != closing) := by
  have hopener : opener.isPrefixOf l.token = (l.token.take 2 == opener) := by
    rw [Bool.eq_iff_iff, List.isPrefixOf_iff_prefix, List.prefix_iff_eq_take, beq_iff_eq,
      @eq_comm _ opener]
    rfl
  rw [hopener]
  rfl

/-- A render that succeeds warns of the placeholders that the record has no value for, then, block by block,
of the collection if it is missing and else of the fields that are missing in its items, and then of the
openers behind the last block. Each of them is told once and in its place, and nothing else is. -/
theorem render_warnings_eq {x : Text}
    (hx : ((standardEngine policy terminator).render t record).result = .ok x) :
    ∃ u, ((standardEngine policy terminator).scalarPass t record).result = .ok u ∧
      ((standardEngine policy terminator).render t record).warnings =
        (record.gapsAmong ((scalars t).map Placeholder.path)).map policy.report ++
          (((blocks u).flatMap (Block.gaps · record)).map policy.report ++
            ((leftovers (behindBlocks u)).filter fun l ↦
              opener.isPrefixOf l.token && l.token != closing).map fun l ↦ .unclosed l.token) := by
  obtain ⟨u, hu, -⟩ := render_eq_ok.1 hx
  refine ⟨u, hu, ?_⟩
  simp only [← isUnclosed_eq]
  exact warns_render record hu x hx

def gapsAndOpener : Text :=
  ['~', 'a', '~', '.', 'f', 'o', 'r', ' ', '.', 'i', '\n', '.', 'p', '~', 'a', ' ', '.', 'q', '\n'] ++
    closing ++ ['~', '.', 'f', 'o', 'r', '.', 'j', '\n', '.', 'p', '\n'] ++ closing ++ closing ++
    ['~', '.', 'u', 'p']

def halfItem : Value :=
  .record [(['i'], .list [.record [(['q'], .int 1)], .null])]

theorem render_warnings_eq_gapsAndOpener :
    ((standardEngine .empty []).render gapsAndOpener halfItem).result =
        .ok ([' ', '1', ' '] ++ closing ++ ['~', '.', 'u', 'p']) ∧
      ((standardEngine .empty []).render gapsAndOpener halfItem).warnings =
        [.noValue ['a'] [], .noValue ['a'] [], .noValue ['p'] [], .noValue ['p'] [],
          .noValue ['q'] [], .noValue ['j'] [], .unclosed ['~', '.', 'u', 'p']] := by
  have hx : ((standardEngine .empty []).render gapsAndOpener halfItem).result =
      .ok ([' ', '1', ' '] ++ closing ++ ['~', '.', 'u', 'p']) := by
    decide
  refine ⟨hx, ?_⟩
  obtain ⟨u, hu, hwarnings⟩ := render_warnings_eq hx
  have hfilled : ((standardEngine .empty []).scalarPass gapsAndOpener halfItem).result =
      .ok (['~', '.', 'f', 'o', 'r', ' ', '.', 'i', '\n', '.', 'p', ' ', '.', 'q', '\n'] ++ closing ++
        ['~', '.', 'f', 'o', 'r', '.', 'j', '\n', '.', 'p', '\n'] ++ closing ++ closing ++
        ['~', '.', 'u', 'p']) := by
    decide
  obtain rfl := Except.ok.inj (hu.symm.trans hfilled)
  rw [hwarnings]
  decide

end TildeMerge
