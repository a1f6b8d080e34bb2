import TildeMerge.Proofs.Document.Filling
import TildeMerge.Proofs.NamedData
import TildeMerge.Proofs.Replacement
import TildeMerge.Proofs.Splicing

namespace TildeMerge

open Markup

def Markup.Head.path (head : Head) : Text :=
  head.collection.getD []

variable {head : Head} {body path : Text} {options : Options} {policy : GapPolicy}
variable {record item : Value} {items : List Value} {err : Error} {text : Text}

/-- What an item adds to a block: the gaps of the body with the texts of the item's fields between them,
and the terminator. -/
def Contributes (body : Text) (options : Options) (item : Value) (text : Text) : Prop :=
  ∃ fields, List.Forall₂ (fun r field ↦ insertedText item options.missing r.path = .ok field)
      (itemRefs body) fields ∧
    text = Text.alternate (body.gaps ((itemRefs body).map Placeholder.span)) fields ++
      options.terminator

/-- The first field that the body names and an item does not have. -/
def FirstGap (body : Text) (items : List Value) (path : Text) : Prop :=
  ∃ done item rest, items = done ++ item :: rest ∧
    (∀ d ∈ done, ∀ r ∈ itemRefs body, d.lookup r.path ≠ none) ∧
    ∃ before r after, itemRefs body = before ++ r :: after ∧
      (∀ q ∈ before, item.lookup q.path ≠ none) ∧ item.lookup r.path = none ∧ r.path = path

theorem fillText_eq_error : policy.fillText path = .error err ↔
    policy = .strict ∧ err = .missingField path := by
  cases policy <;> simp [GapPolicy.fillText, @eq_comm _ err]

theorem insertedText_eq_error : insertedText item policy path = .error err ↔
    policy = .strict ∧ item.lookup path = none ∧ err = .missingField path := by
  unfold insertedText
  cases item.lookup path with
  | some v => simp
  | none => simp [fillText_eq_error]

theorem exists_insertedText_iff :
    (∃ field, insertedText item policy path = .ok field) ↔
      (policy = .strict → item.lookup path ≠ none) := by
  unfold insertedText
  cases item.lookup path with
  | some v => simp
  | none => cases policy <;> simp [GapPolicy.fillText]

def itemSection (body : Text) (options : Options) (item : Value) : Except Error Text :=
  (fun fields ↦ Text.alternate (body.gaps ((itemRefs body).map Placeholder.span)) fields ++
    options.terminator) <$> (itemRefs body).mapM fun r ↦ insertedText item options.missing r.path

theorem contributes_iff : Contributes body options item text ↔
    itemSection body options item = .ok text := by
  simp only [Contributes, itemSection, map_eq_ok, mapM_eq_ok, @eq_comm _ text]

theorem itemSection_eq_error : itemSection body options item = .error err ↔
    options.missing = .strict ∧ ∃ before r after, itemRefs body = before ++ r :: after ∧
      (∀ q ∈ before, item.lookup q.path ≠ none) ∧ item.lookup r.path = none ∧
      err = .missingField r.path := by
  rw [itemSection, map_eq_error, mapM_eq_error]
  constructor
  · rintro ⟨before, r, after, hrefs, hbefore, herr⟩
    obtain ⟨hstrict, hnone, rfl⟩ := insertedText_eq_error.1 herr
    refine ⟨hstrict, before, r, after, hrefs, ?_, hnone, rfl⟩
    intro q hq
    exact exists_insertedText_iff.1 (hbefore q hq) hstrict
  · rintro ⟨hstrict, before, r, after, hrefs, hbefore, hnone, rfl⟩
    refine ⟨before, r, after, hrefs, ?_, insertedText_eq_error.2 ⟨hstrict, hnone, rfl⟩⟩
    intro q hq
    exact exists_insertedText_iff.2 fun _ ↦ hbefore q hq

theorem exists_itemSection_iff : (∃ text, itemSection body options item = .ok text) ↔
    (options.missing = .strict → ∀ r ∈ itemRefs body, item.lookup r.path ≠ none) := by
  have hfields : (∃ text, itemSection body options item = .ok text) ↔
      ∃ fields, ((itemRefs body).mapM fun r ↦ insertedText item options.missing r.path) =
        .ok fields := by
    simp only [itemSection, map_eq_ok]
    constructor
    · rintro ⟨text, fields, hfields, -⟩
      exact ⟨fields, hfields⟩
    · rintro ⟨fields, hfields⟩
      exact ⟨_, fields, hfields, rfl⟩
  rw [hfields, exists_mapM_iff]
  simp only [exists_insertedText_iff]
  exact ⟨fun h hstrict r hr ↦ h r hr hstrict, fun h r hr hstrict ↦ h hstrict r hr⟩

theorem itemSection_eq (body : Text) (options : Options) (item : Value) :
    itemSection body options item = (· ++ options.terminator) <$>
      (splice (resolveIn item options.missing) (itemPieces body)).result := by
  have hfields : (splice (resolveIn item options.missing) (itemPieces body)).result =
      Text.alternate (body.gaps ((itemRefs body).map Placeholder.span)) <$>
        (itemRefs body).mapM fun r ↦ insertedText item options.missing r.path := by
    rw [splice_itemPieces, Logged.map_result, mapM_result]
    simp only [Document.resolveIn_result]
    rfl
  rw [hfields, itemSection]
  cases (itemRefs body).mapM fun r ↦ insertedText item options.missing r.path <;> rfl

theorem renderItems_eq (body : Text) (options : Options) (items : List Value) :
    (Directive.renderItems (itemPieces body) options items).result =
      List.flatten <$> items.mapM (itemSection body options) := by
  induction items with
  | nil => rfl
  | cons item rest ih =>
    rw [Directive.renderItems, Logged.bind_result, List.mapM_cons, itemSection_eq]
    simp only [Logged.map_result, ih]
    cases (splice (resolveIn item options.missing) (itemPieces body)).result with
    | error e => rfl
    | ok text => cases rest.mapM (itemSection body options) <;> rfl

theorem forEach_list (h : record.lookup head.path = some (.list items)) :
    (Directive.forEach head body record options).result =
      List.flatten <$> items.mapM (itemSection body options) := by
  unfold Directive.forEach
  dsimp only
  rw [← Head.path, h]
  exact renderItems_eq body options items

theorem forEach_missing (h : record.lookup head.path = none) :
    (Directive.forEach head body record options).result =
      (fun _ ↦ []) <$> options.missing.fillText head.path := by
  unfold Directive.forEach
  dsimp only
  rw [← Head.path, h]
  cases options.missing <;> rfl

theorem mapM_itemSection_eq_error : items.mapM (itemSection body options) = .error err ↔
    options.missing = .strict ∧ ∃ path, err = .missingField path ∧ FirstGap body items path := by
  rw [mapM_eq_error]
  constructor
  · rintro ⟨done, item, rest, rfl, hdone, herr⟩
    obtain ⟨hstrict, before, r, after, hrefs, hbefore, hnone, rfl⟩ := itemSection_eq_error.1 herr
    refine ⟨hstrict, r.path, rfl, done, item, rest, rfl, ?_, before, r, after, hrefs, hbefore,
      hnone, rfl⟩
    intro d hd
    exact exists_itemSection_iff.1 (hdone d hd) hstrict
  · rintro ⟨hstrict, path, rfl, done, item, rest, rfl, hdone, before, r, after, hrefs, hbefore,
      hnone, rfl⟩
    refine ⟨done, item, rest, rfl, ?_, itemSection_eq_error.2
      ⟨hstrict, before, r, after, hrefs, hbefore, hnone, rfl⟩⟩
    intro d hd
    exact exists_itemSection_iff.2 fun _ ↦ hdone d hd

/-- What a block makes of the list at its path, of a value there that is no list, and of a gap. -/
structure RepeatsBody (head : Head) (body : Text) (options : Options) : Prop where
  append : ∀ (record first second : Value) (xs ys : List Value),
    record.lookup head.path = some (.list (xs ++ ys)) →
    first.lookup head.path = some (.list xs) → second.lookup head.path = some (.list ys) →
    ∀ text, (Directive.forEach head body record options).result = .ok text ↔
      ∃ t u, (Directive.forEach head body first options).result = .ok t ∧
        (Directive.forEach head body second options).result = .ok u ∧ text = t ++ u
  items : ∀ (record : Value) (xs : List Value), record.lookup head.path = some (.list xs) →
    ∀ text, (Directive.forEach head body record options).result = .ok text ↔
      ∃ texts, List.Forall₂ (Contributes body options) xs texts ∧ text = texts.flatten
  nil : ∀ record : Value, record.lookup head.path = some (.list []) →
    (Directive.forEach head body record options).result = .ok []
  missing : ∀ record : Value, record.lookup head.path = none → options.missing ≠ .strict →
    (Directive.forEach head body record options).result = .ok []
  notACollection_iff : ∀ record : Value,
    (Directive.forEach head body record options).result = .error (.notACollection head.path) ↔
      ∃ v, record.lookup head.path = some v ∧ ∀ items, v ≠ .list items
  error_iff : ∀ (record : Value) (err : Error), err ≠ .notACollection head.path →
    ((Directive.forEach head body record options).result = .error err ↔
      options.missing = .strict ∧ ∃ path, err = .missingField path ∧
        (record.lookup head.path = none ∧ path = head.path ∨
          ∃ xs, record.lookup head.path = some (.list xs) ∧ FirstGap body xs path))

theorem forEach_append {first second : Value} {xs ys : List Value}
    (h : record.lookup head.path = some (.list (xs ++ ys)))
    (hfirst : first.lookup head.path = some (.list xs))
    (hsecond : second.lookup head.path = some (.list ys)) :
    (Directive.forEach head body record options).result = .ok text ↔
      ∃ t u, (Directive.forEach head body first options).result = .ok t ∧
        (Directive.forEach head body second options).result = .ok u ∧ text = t ++ u := by
  rw [forEach_list h, forEach_list hfirst, forEach_list hsecond, List.mapM_append]
  simp only [map_eq_ok, bind_eq_ok]
  constructor
  · rintro ⟨_, ⟨ts, hts, us, hus, hsum⟩, rfl⟩
    obtain rfl := Except.ok.inj hsum
    exact ⟨ts.flatten, us.flatten, ⟨ts, hts, rfl⟩, ⟨us, hus, rfl⟩, List.flatten_append⟩
  · rintro ⟨_, _, ⟨ts, hts, rfl⟩, ⟨us, hus, rfl⟩, rfl⟩
    exact ⟨ts ++ us, ⟨ts, hts, us, hus, rfl⟩, List.flatten_append⟩

theorem forEach_eq_ok_iff (h : record.lookup head.path = some (.list items)) :
    (Directive.forEach head body record options).result = .ok text ↔
      ∃ texts, List.Forall₂ (Contributes body options) items texts ∧ text = texts.flatten := by
  simp only [forEach_list h, map_eq_ok, mapM_eq_ok, ← contributes_iff, @eq_comm _ text]

theorem forEach_notACollection_iff :
    (Directive.forEach head body record options).result = .error (.notACollection head.path) ↔
      ∃ v, record.lookup head.path = some v ∧ ∀ items, v ≠ .list items := by
  constructor
  · intro herr
    cases h : record.lookup head.path with
    | none =>
      rw [forEach_missing h, map_eq_error] at herr
      cases hpolicy : options.missing <;> rw [hpolicy] at herr <;> cases herr
    | some v =>
      refine ⟨v, rfl, ?_⟩
      rintro items rfl
      rw [forEach_list h, map_eq_error, mapM_itemSection_eq_error] at herr
      obtain ⟨-, path, hpath, -⟩ := herr
      cases hpath
  · rintro ⟨v, h, hv⟩
    rw [forEach_of_no_list h hv]
    rfl

theorem forEach_error_iff (hne : err ≠ .notACollection head.path) :
    (Directive.forEach head body record options).result = .error err ↔
      options.missing = .strict ∧ ∃ path, err = .missingField path ∧
        (record.lookup head.path = none ∧ path = head.path ∨
          ∃ xs, record.lookup head.path = some (.list xs) ∧ FirstGap body xs path) := by
  cases h : record.lookup head.path with
  | none =>
    rw [forEach_missing h, map_eq_error, fillText_eq_error]
    simp
  | some v =>
    by_cases hv : ∃ xs, v = .list xs
    · obtain ⟨xs, rfl⟩ := hv
      rw [forEach_list h, map_eq_error, mapM_itemSection_eq_error]
      simp
    · have hno : ∀ xs, v ≠ .list xs := fun xs hxs ↦ hv ⟨xs, hxs⟩
      rw [forEach_of_no_list h hno]
      refine iff_of_false ?_ ?_
      · intro herr
        exact hne (Except.error.inj herr).symm
      · rintro ⟨-, path, -, ⟨hnone, -⟩ | ⟨xs, hxs, -⟩⟩
        · cases hnone
        · exact hno xs (Option.some.inj hxs)

/-- Over one list behind another a block gives one text behind the other, and each item gives the body
with its fields in it. It fails if what it finds is no list, or, under the strict policy, with the first
field that is missing. -/
theorem for_repeats_body (head : Head) (body : Text) (options : Options) :
    RepeatsBody head body options where
  append _ _ _ _ _ h hfirst hsecond _ := forEach_append h hfirst hsecond
  items _ _ h _ := forEach_eq_ok_iff h
  nil _ h := (forEach_eq_ok_iff h).2 ⟨[], .nil, rfl⟩
  missing _ h hlax := by
    rw [forEach_missing h]
    cases hpolicy : options.missing with
    | strict => exact absurd hpolicy hlax
    | _ => rfl
  notACollection_iff _ := forEach_notACollection_iff
  error_iff _ _ := forEach_error_iff

def dottedBody : Text :=
  ['3', '.', 'q', '~', '.', ' ']

/-- An item whose field holds what would be a reference in a body. -/
def quotedField : Value :=
  .record [(['q'], .text ['.', 'q'])]

def itemsOnly (items : List Value) : Value :=
  .record [(['i'], .list items)]

theorem for_repeats_body_quotedField :
    (itemsOnly [quotedField, .null]).lookup ['i'] = some (.list ([quotedField] ++ [.null])) ∧
      (Directive.forEach ⟨['f', 'o', 'r'], some ['i']⟩ dottedBody (itemsOnly [quotedField, .null])
        {}).result = .ok (['3', '.', 'q', '~', '.', ' ', '\n'] ++
          ('3' :: undefinedText ++ ['~', '.', ' ', '\n'])) ∧
      (Directive.forEach ⟨['f', 'o', 'r'], some ['i']⟩ dottedBody (itemsOnly [quotedField, .null])
        { missing := .strict }).result = .error (.missingField ['q']) := by
  refine ⟨rfl, ?_, ?_⟩
  · have h := (for_repeats_body ⟨['f', 'o', 'r'], some ['i']⟩ dottedBody {}).append
      (itemsOnly [quotedField, .null]) (itemsOnly [quotedField]) (itemsOnly [.null])
      [quotedField] [.null] rfl rfl rfl
    exact (h _).2 ⟨_, _, rfl, rfl, rfl⟩
  · refine ((for_repeats_body ⟨['f', 'o', 'r'], some ['i']⟩ dottedBody
      { missing := .strict }).error_iff _ _ (by decide)).2 ⟨rfl, ['q'], rfl, .inr ⟨_, rfl, ?_⟩⟩
    have hrefs : itemRefs dottedBody = [⟨1, 3, ['q']⟩] := by decide
    refine ⟨[quotedField], .null, [], rfl, ?_, [], _, [], hrefs, List.forall_mem_nil _, rfl, rfl⟩
    intro d hd r hr
    rw [hrefs] at hr
    rw [List.mem_singleton.1 hd, List.mem_singleton.1 hr]
    exact Option.some_ne_none _

end TildeMerge
