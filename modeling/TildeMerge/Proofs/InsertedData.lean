import TildeMerge.Proofs.Markup.Insertion
import TildeMerge.Proofs.Passes

namespace TildeMerge

open Markup

variable {value : Text → Text} {record record' : Value} {t : Text} {ps : List Piece}

/-- The text of pieces with a text in the place of each placeholder. -/
def fill (value : Text → Text) : List Piece → Text
  | [] => []
  | .plain c :: rest => c :: fill value rest
  | .placeholder path :: rest => value path ++ fill value rest

/-- The text of pieces with their placeholders left out. -/
def skeleton (ps : List Piece) : Text :=
  fill (fun _ ↦ []) ps

def textAt (record : Value) (path : Text) : Text :=
  ((record.lookup path).map Value.inserted).getD []

def HoldsTexts (record : Value) (t : Text) : Prop :=
  ∀ p ∈ scalars t, ∃ u, record.lookup p.path = some (.text u)

/-- Each text is harmless where it stands, between what has been printed before it and what of the
template is still to come. -/
def HarmlessTexts (value : Text → Text) : Text → List Piece → Prop
  | _, [] => True
  | before, .plain c :: rest => HarmlessTexts value (before ++ [c]) rest
  | before, .placeholder path :: rest =>
    Harmless before (skeleton rest) (value path) ∧
      HarmlessTexts value (before ++ value path) rest

/-- The values that a record has for a template are harmless in it. -/
def HarmlessData (record : Value) (t : Text) : Prop :=
  HarmlessTexts (textAt record) [] (scalarPieces t)

instance decidableHarmlessTexts (value : Text → Text) :
    (before : Text) → (ps : List Piece) → Decidable (HarmlessTexts value before ps)
  | _, [] => .isTrue trivial
  | before, .plain c :: rest => decidableHarmlessTexts value (before ++ [c]) rest
  | before, .placeholder path :: rest =>
    have := decidableHarmlessTexts value (before ++ value path) rest
    inferInstanceAs (Decidable (Harmless before (skeleton rest) (value path) ∧
      HarmlessTexts value (before ++ value path) rest))

instance (record : Value) (t : Text) : Decidable (HarmlessData record t) :=
  decidableHarmlessTexts _ _ _

theorem splice_of_texts {resolve : Text → Logged Text}
    (h : ∀ path ∈ ps.filterMap Piece.path?, resolve path = pure (value path)) :
    splice resolve ps = pure (fill value ps) := by
  induction ps with
  | nil => rfl
  | cons piece ps ih =>
    cases piece with
    | plain c => simp [splice, fill, ih h]
    | placeholder path =>
      obtain ⟨hpath, hrest⟩ := List.forall_mem_cons.1 h
      simp [splice, fill, hpath, ih hrest]

theorem scalarPass_of_texts (e : Engine) (h : HoldsTexts record t) :
    (e.scalarPass t record).result = .ok (fill (textAt record) (scalarPieces t)) := by
  have hresolve : ∀ path ∈ (scalarPieces t).filterMap Piece.path?,
      resolveIn record e.options.missing path = pure (textAt record path) := by
    rw [← map_path_locate 0, List.forall_mem_map]
    intro p hp
    obtain ⟨u, hu⟩ := h p hp
    simp [resolveIn, textAt, hu]
  rw [Engine.scalarPass, splice_of_texts hresolve]
  rfl

/-- No run goes on behind a placeholder. -/
def Separated : List Piece → Prop
  | [] => True
  | .plain _ :: rest => Separated rest
  | .placeholder _ :: rest => EndsRun (skeleton rest) ∧ Separated rest

theorem separated_plain_append (s : Text) (ps : List Piece) :
    Separated (s.map .plain ++ ps) ↔ Separated ps := by
  induction s with
  | nil => rfl
  | cons c s ih => exact ih

theorem isPathChar_of_mem_rest (t : Text) : ∀ p ∈ (runs t).rest, isPathChar p.1 = false := by
  induction t with
  | nil =>
    intro p hp
    cases hp
  | cons c t ih =>
    cases hc : isPathChar c
    · rw [runs_cons_break hc]
      exact List.forall_mem_cons.2 ⟨hc, ih⟩
    · rw [runs_cons_path hc]
      exact ih

theorem separated_flatMap {pieces : Char × Text → List Piece} {rest : List (Char × Text)}
    (hbreak : ∀ p ∈ rest, isPathChar p.1 = false)
    (hpieces : ∀ p, (∃ path, pieces p = [.placeholder path]) ∨
      pieces p = (p.1 :: p.2).map .plain) :
    EndsRun (skeleton (rest.flatMap pieces)) ∧ Separated (rest.flatMap pieces) := by
  induction rest with
  | nil => exact ⟨endsRun_nil, trivial⟩
  | cons p rest ih =>
    obtain ⟨hp, hrest⟩ := List.forall_mem_cons.1 hbreak
    rw [List.flatMap_cons]
    rcases hpieces p with ⟨path, hplace⟩ | hplain
    · rw [hplace]
      exact ⟨(ih hrest).1, ih hrest⟩
    · rw [hplain]
      exact ⟨endsRun_cons.2 hp, (separated_plain_append _ _).2 (ih hrest).2⟩

theorem separated_scalarPieces (t : Text) : Separated (scalarPieces t) := by
  refine (separated_plain_append _ _).2 (separated_flatMap (isPathChar_of_mem_rest t) ?_).2
  rintro ⟨c, run⟩
  dsimp only
  split
  · exact .inl ⟨run, rfl⟩
  · exact .inr rfl

/-- Harmless texts are put in one after the other, the last one first. -/
theorem shapes_fill (before : Text) (hps : Separated ps) (h : HarmlessTexts value before ps) :
    shapes (before ++ fill value ps) = shapes (before ++ skeleton ps) := by
  induction ps generalizing before with
  | nil => rfl
  | cons piece ps ih =>
    cases piece with
    | plain c =>
      have hrest := ih _ hps h
      rw [List.append_assoc, List.append_assoc] at hrest
      exact hrest
    | placeholder path =>
      obtain ⟨hends, hrest⟩ := hps
      calc shapes (before ++ (value path ++ fill value ps)) =
            shapes (before ++ value path ++ fill value ps) := by rw [List.append_assoc]
        _ = shapes (before ++ value path ++ skeleton ps) := ih _ hrest h.2
        _ = shapes (before ++ (value path ++ skeleton ps)) := by rw [List.append_assoc]
        _ = shapes (before ++ skeleton ps) := shapes_insert hends h.1

/-- Whatever texts two records hold, if they are harmless then the first pass puts each of them in its
place and leaves the same blocks, those of the template with its placeholders left out. -/
theorem scalarPass_shapes (e : Engine) (h : HoldsTexts record t) (h' : HoldsTexts record' t)
    (hv : HarmlessData record t) (hv' : HarmlessData record' t) :
    ∃ u u', (e.scalarPass t record).result = .ok u ∧ (e.scalarPass t record').result = .ok u' ∧
      u = fill (textAt record) (scalarPieces t) ∧ u' = fill (textAt record') (scalarPieces t) ∧
      shapes u = shapes u' ∧ shapes u = shapes (skeleton (scalarPieces t)) := by
  have hps := separated_scalarPieces t
  have hu := shapes_fill [] hps hv
  have hu' := shapes_fill [] hps hv'
  exact ⟨_, _, scalarPass_of_texts e h, scalarPass_of_texts e h', rfl, rfl, hu.trans hu'.symm, hu⟩

def invoice : Text :=
  ['N', 'o', ' ', '~', 'n', '\n', '~', '.', 'f', 'o', 'r', ' ', '.', 'x', 's', '\n', '.', 'q', ' ',
    '~', 'c', '\n', '~', '.', 'e', 'n', 'd', '~', 'n']

def shortInvoice : Value :=
  .record [(['c'], .text []), (['n'], .text ['7'])]

def longInvoice : Value :=
  .record [(['c'], .text ['E', '\n', 'U', '.', ' ']), (['n'], .text ['a', '.', 'b', '~', '\n', '~'])]

theorem scalarPass_shapes_invoice :
    HarmlessData shortInvoice invoice ∧ HarmlessData longInvoice invoice ∧
      ∃ u u', (({} : Engine).scalarPass invoice shortInvoice).result = .ok u ∧
        (({} : Engine).scalarPass invoice longInvoice).result = .ok u' ∧ shapes u = shapes u' ∧
        shapes u = [⟨some ⟨['f', 'o', 'r'], some ['x', 's']⟩, [['q']]⟩] := by
  have hv : HarmlessData shortInvoice invoice := by decide
  have hv' : HarmlessData longInvoice invoice := by decide
  have hpaths : ∀ p ∈ scalars invoice, p.path = ['n'] ∨ p.path = ['c'] := by decide
  have h : HoldsTexts shortInvoice invoice := by
    intro p hp
    rcases hpaths p hp with hn | hc
    · rw [hn]
      exact ⟨_, rfl⟩
    · rw [hc]
      exact ⟨_, rfl⟩
  have h' : HoldsTexts longInvoice invoice := by
    intro p hp
    rcases hpaths p hp with hn | hc
    · rw [hn]
      exact ⟨_, rfl⟩
    · rw [hc]
      exact ⟨_, rfl⟩
  obtain ⟨u, u', hu, hu', -, -, hsame, hskeleton⟩ := scalarPass_shapes {} h h' hv hv'
  exact ⟨hv, hv', u, u', hu, hu', hsame, hskeleton.trans (by decide)⟩

def blockValue : Text :=
  ['~', '.', 'f', 'o', 'r', ' ', '.', 'i', '\n', '.', 'y', '\n', '~', '.', 'e', 'n', 'd']

/-- Without a condition on the values they can bring blocks with them: what the second pass reads is
the text that the first one has printed. -/
theorem scalarPass_shapes_blockValue :
    ¬ ∀ (e : Engine) (t : Text) (record record' : Value), HoldsTexts record t →
      HoldsTexts record' t → ∃ u u', (e.scalarPass t record).result = .ok u ∧
        (e.scalarPass t record').result = .ok u' ∧ shapes u = shapes u' := by
  intro hall
  have hpaths : ∀ p ∈ scalars ['~', 'x'], p.path = ['x'] := by decide
  have hholds (v : Text) : HoldsTexts (.record [(['x'], .text v)]) ['~', 'x'] := by
    intro p hp
    rw [hpaths p hp]
    exact ⟨v, rfl⟩
  obtain ⟨u, u', hu, hu', hsame⟩ := hall {} ['~', 'x'] _ _ (hholds ['a']) (hholds blockValue)
  obtain rfl : ['a'] = u := Except.ok.inj hu
  obtain rfl : blockValue = u' := Except.ok.inj hu'
  revert hsame
  decide

end TildeMerge
