import TildeMerge.Proofs.Dispatch
import TildeMerge.Proofs.Markup.Shapes
import TildeMerge.Proofs.Passes
import Mathlib.Data.List.Forall2

namespace TildeMerge

open Markup

variable {record record' : Value} {t u : Text} {ps : List Piece} {options : Options}

/-- A collection that is missing in both records, a value that is no list in either, or two lists in
which items at the same place agree on the fields with these paths. -/
inductive SameCollection (paths : List Text) : Option Value → Option Value → Prop
  | missing : SameCollection paths none none
  | noList {v w : Value} (hv : ∀ items, v ≠ .list items) (hw : ∀ items, w ≠ .list items) :
      SameCollection paths (some v) (some w)
  | lists {items items' : List Value}
      (h : List.Forall₂ (fun v w ↦ ∀ path ∈ paths, v.lookup path = w.lookup path) items items') :
      SameCollection paths (some (.list items)) (some (.list items'))

/-- The records have the same values for the placeholders of a template. -/
def SameScalars (t : Text) (record record' : Value) : Prop :=
  ∀ p ∈ scalars t, record.lookup p.path = record'.lookup p.path

/-- The records have the same collections for the blocks of a text, as far as these look into them. A
block that names no collection asks for the empty path. -/
def SameCollections (u : Text) (record record' : Value) : Prop :=
  ∀ b ∈ blocks u, ∀ head, b.head = some head →
    SameCollection ((itemRefs b.body).map Placeholder.path)
      (record.lookup (head.collection.getD [])) (record'.lookup (head.collection.getD []))

theorem splice_congr {resolve resolve' : Text → Logged Text}
    (h : ∀ path ∈ ps.filterMap Piece.path?, resolve path = resolve' path) :
    splice resolve ps = splice resolve' ps := by
  induction ps with
  | nil => rfl
  | cons piece ps ih =>
    cases piece with
    | plain c => rw [splice, splice, ih h]
    | placeholder path =>
      obtain ⟨hpath, hrest⟩ := List.forall_mem_cons.1 h
      rw [splice, splice, hpath, ih hrest]

theorem splice_resolveIn_congr (policy : GapPolicy)
    (h : ∀ path ∈ ps.filterMap Piece.path?, record.lookup path = record'.lookup path) :
    splice (resolveIn record policy) ps = splice (resolveIn record' policy) ps := by
  refine splice_congr fun path hpath ↦ ?_
  rw [resolveIn, resolveIn, h path hpath]

theorem scalarPass_congr (e : Engine) (h : SameScalars t record record') :
    e.scalarPass t record = e.scalarPass t record' := by
  have hpaths : ∀ path ∈ (scalarPieces t).filterMap Piece.path?,
      record.lookup path = record'.lookup path := by
    rw [← map_path_locate 0, List.forall_mem_map]
    exact h
  rw [Engine.scalarPass, Engine.scalarPass, splice_resolveIn_congr _ hpaths]

theorem renderItems_congr {items items' : List Value}
    (h : List.Forall₂ (fun v w ↦ ∀ path ∈ ps.filterMap Piece.path?, v.lookup path = w.lookup path)
      items items') :
    Directive.renderItems ps options items = Directive.renderItems ps options items' := by
  induction h with
  | nil => rfl
  | cons hitem _ ih =>
    rw [Directive.renderItems, Directive.renderItems, splice_resolveIn_congr _ hitem, ih]

theorem forEach_of_no_list {head : Head} {body : Text} {v : Value}
    (hr : record.lookup (head.collection.getD []) = some v) (hv : ∀ items, v ≠ .list items) :
    Directive.forEach head body record options =
      Logged.fail (.notACollection (head.collection.getD [])) := by
  unfold Directive.forEach
  dsimp only
  rw [hr]
  cases v with
  | list items => exact absurd rfl (hv items)
  | _ => rfl

theorem forEach_congr {head : Head} {body : Text}
    (h : SameCollection (itemPaths body) (record.lookup (head.collection.getD []))
      (record'.lookup (head.collection.getD []))) :
    Directive.forEach head body record options = Directive.forEach head body record' options := by
  generalize hr : record.lookup (head.collection.getD []) = o at h
  generalize hr' : record'.lookup (head.collection.getD []) = o' at h
  cases h with
  | missing =>
    unfold Directive.forEach
    dsimp only
    rw [hr, hr']
  | noList hv hw => rw [forEach_of_no_list hr hv, forEach_of_no_list hr' hw]
  | lists hitems =>
    unfold Directive.forEach
    dsimp only
    rw [hr, hr']
    dsimp only
    rw [hitems.length_eq, renderItems_congr hitems]

theorem renderBlock_congr {region : Text}
    (h : ∀ head, Head.parse region.firstLine = some head →
      SameCollection (itemPaths (bodyOf region)) (record.lookup (head.collection.getD []))
        (record'.lookup (head.collection.getD []))) :
    ({ options } : Engine).renderBlock region record =
      ({ options } : Engine).renderBlock region record' := by
  unfold Engine.renderBlock
  cases hhead : Head.parse region.firstLine with
  | none => rfl
  | some head =>
    dsimp only
    rw [dispatch_standard, dispatch_standard, forEach_congr (h head hhead)]

theorem renderSections_congr {e : Engine} {ss : List Section}
    (h : ∀ region, .block region ∈ ss → e.renderBlock region record = e.renderBlock region record') :
    e.renderSections record ss = e.renderSections record' ss := by
  induction ss with
  | nil => rfl
  | cons sec ss ih =>
    have hrest := ih fun region hr ↦ h region (List.mem_cons_of_mem sec hr)
    cases sec with
    | plain c => rw [Engine.renderSections, Engine.renderSections, hrest]
    | block region =>
      rw [Engine.renderSections, Engine.renderSections, hrest, h region List.mem_cons_self]

theorem blockPass_congr (h : SameCollections u record record') :
    ({ options } : Engine).blockPass u record = ({ options } : Engine).blockPass u record' := by
  have hblock : ∀ region, .block region ∈ sections u →
      ({ options } : Engine).renderBlock region record =
        ({ options } : Engine).renderBlock region record' := by
    intro region hr
    obtain ⟨start, hstart⟩ := exists_mem_locateBlocks 0 hr
    refine renderBlock_congr fun head hhead ↦ ?_
    have hsame := h _ hstart head hhead
    rw [itemRefs, map_path_locate] at hsame
    exact hsame
  rw [Engine.blockPass, Engine.blockPass, renderSections_congr hblock]

theorem render_congr (h : SameScalars t record record')
    (hu : ∀ u, (({ options } : Engine).scalarPass t record).result = .ok u →
      SameCollections u record record') :
    ({ options } : Engine).render t record = ({ options } : Engine).render t record' := by
  rw [Engine.render, Engine.render, ← scalarPass_congr _ h]
  exact Logged.bind_congr fun u hpass ↦ blockPass_congr (hu u hpass)

def Value.field? (v : Value) (key : Text) : Option Value :=
  match v with
  | .record fields => fields.lookup key
  | _ => none

/-- What stands under a key in two records: the same, or a null in one and nothing in the other. -/
inductive SameOrNull : Option Value → Option Value → Prop
  | same (o : Option Value) : SameOrNull o o
  | dropped : SameOrNull (some .null) none
  | added : SameOrNull none (some .null)

/-- The records have the same fields but for nulls. -/
def Value.SameButNulls (v w : Value) : Prop :=
  ∀ key, SameOrNull (v.field? key) (w.field? key)

/-- The records have the same fields but for nulls, at the top level and in the items of lists. -/
def Value.SameButItemNulls (v w : Value) : Prop :=
  ∀ key, SameOrNull (v.field? key) (w.field? key) ∨
    ∃ items items', v.field? key = some (.list items) ∧ w.field? key = some (.list items') ∧
      List.Forall₂ Value.SameButNulls items items'

theorem lookup_eq_filter (v : Value) (key : Text) :
    v.lookup key = (v.field? key).filter (!·.isNull) := by
  cases v <;> rfl

theorem SameOrNull.lookup_eq {v w : Value} {key : Text}
    (h : SameOrNull (v.field? key) (w.field? key)) : v.lookup key = w.lookup key := by
  rw [lookup_eq_filter, lookup_eq_filter]
  generalize v.field? key = o at h
  generalize w.field? key = o' at h
  cases h <;> rfl

theorem SameCollection.refl (paths : List Text) (o : Option Value) : SameCollection paths o o := by
  cases o with
  | none => exact .missing
  | some v =>
    cases v with
    | list items => exact .lists (List.forall₂_same.2 fun _ _ _ _ ↦ rfl)
    | _ => exact .noList nofun nofun

theorem Value.SameButItemNulls.sameCollection (h : record.SameButItemNulls record')
    (paths : List Text) (key : Text) :
    SameCollection paths (record.lookup key) (record'.lookup key) := by
  rcases h key with hsame | ⟨items, items', hr, hr', hitems⟩
  · rw [hsame.lookup_eq]
    exact .refl paths _
  · rw [lookup_eq_filter, lookup_eq_filter, hr, hr']
    exact .lists (hitems.imp fun v w hvw path _ ↦ (hvw path).lookup_eq)

/-- A render depends only on the data that its template names. If two records agree on the placeholders
of the template, and on the collections of the blocks that the first pass gives, then they have the same
render and the same log. So it plays no part whether a key is absent or holds a null, neither in the
record nor, as long as the placeholders have the same values, in the items of its lists. -/
theorem render_named_data (options : Options) (t : Text) (record record' : Value) :
    (SameScalars t record record' →
      (∀ u, (({ options } : Engine).scalarPass t record).result = .ok u →
        SameCollections u record record') →
      ({ options } : Engine).render t record = ({ options } : Engine).render t record') ∧
    (record.SameButNulls record' →
      ({ options } : Engine).render t record = ({ options } : Engine).render t record') ∧
    (SameScalars t record record' → record.SameButItemNulls record' →
      ({ options } : Engine).render t record = ({ options } : Engine).render t record') := by
  have hnulls (hs : SameScalars t record record') (h : record.SameButItemNulls record') :
      ({ options } : Engine).render t record = ({ options } : Engine).render t record' :=
    render_congr hs fun _ _ _ _ head _ ↦ h.sameCollection _ (head.collection.getD [])
  refine ⟨render_congr, fun h ↦ ?_, hnulls⟩
  exact hnulls (fun p _ ↦ (h p.path).lookup_eq) fun key ↦ .inl (h key)

def nameAndItems : Text :=
  ['~', 'n', '~', '.', 'f', 'o', 'r', ' ', '.', 'i', '\n', '.', 'q', '\n', '~', '.', 'e', 'n', 'd']

def fewFields : Value :=
  .record [(['i'], .list [.record [(['q'], .int 1)], .null]), (['n'], .text ['N'])]

def moreFields : Value :=
  .record [(['a'], .bool true), (['i'], .list [.record [(['p'], .int 2), (['q'], .int 1)],
    .record [(['q'], .null)]]), (['n'], .text ['N'])]

theorem render_named_data_nameAndItems :
    SameScalars nameAndItems fewFields moreFields ∧
      (({} : Engine).scalarPass nameAndItems fewFields).result = .ok ('N' :: nameAndItems.drop 2) ∧
      SameCollections ('N' :: nameAndItems.drop 2) fewFields moreFields ∧
      ({} : Engine).render nameAndItems fewFields = ({} : Engine).render nameAndItems moreFields := by
  have hscalars : SameScalars nameAndItems fewFields moreFields := by
    have hpaths : ∀ p ∈ scalars nameAndItems, p.path = ['n'] := by decide
    intro p hp
    rw [hpaths p hp]
    rfl
  have hpass : (({} : Engine).scalarPass nameAndItems fewFields).result =
      .ok ('N' :: nameAndItems.drop 2) := rfl
  have hcollections : SameCollections ('N' :: nameAndItems.drop 2) fewFields moreFields := by
    have hblock : ∀ b ∈ blocks ('N' :: nameAndItems.drop 2),
        b.head = some ⟨['f', 'o', 'r'], some ['i']⟩ ∧
          (itemRefs b.body).map Placeholder.path = [['q']] := by
      decide
    intro b hb head hhead
    obtain ⟨hfor, hfields⟩ := hblock b hb
    rw [hhead] at hfor
    obtain rfl := Option.some.inj hfor
    rw [hfields]
    refine .lists (.cons ?_ (.cons ?_ .nil))
    all_goals
      intro path hpath
      rw [List.mem_singleton.1 hpath]
      rfl
  refine ⟨hscalars, hpass, hcollections, (render_named_data {} _ _ _).1 hscalars fun u hu ↦ ?_⟩
  rw [hpass] at hu
  rw [← Except.ok.inj hu]
  exact hcollections

end TildeMerge
