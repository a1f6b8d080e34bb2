import TildeMerge.Proofs.Files.Joining
import TildeMerge.Proofs.Repetition
import TildeMerge.Render.OutputPath

namespace TildeMerge

open Markup
open TildeMerge.Path

variable {e : Engine} {policy : GapPolicy} {record : Value} {t u name output : Text} {err : Error}
variable {cs : List Component}

def filled (record : Value) (policy : GapPolicy) (t : Text) : Except Error Text :=
  Text.alternate (t.gaps ((scalars t).map Placeholder.span)) <$>
    (scalars t).mapM fun p ↦ insertedText record policy p.path

def filledComponent (record : Value) (policy : GapPolicy) : Component → Except Error Text
  | .normal name =>
    (withExtension · (splitExtension name).2) <$> filled record policy (splitExtension name).1
  | c => .ok c.text

/-- The path that an output names if nothing but its placeholders is filled. -/
def filledPath (record : Value) (policy : GapPolicy) (output : Text) : Except Error Text :=
  joined <$> (components output).mapM (filledComponent record policy)

/-- As long as the stems can be filled, none of them has a block in it. -/
def NoBlocks (record : Value) (policy : GapPolicy) : List Component → Prop
  | [] => True
  | .normal name :: rest => ∀ u, filled record policy (splitExtension name).1 = .ok u →
      blocks u = [] ∧ NoBlocks record policy rest
  | _ :: rest => NoBlocks record policy rest

instance decidableNoBlocks (record : Value) (policy : GapPolicy) :
    (cs : List Component) → Decidable (NoBlocks record policy cs)
  | [] => .isTrue trivial
  | .normal name :: rest =>
    have := decidableNoBlocks record policy rest
    inferInstanceAs (Decidable (∀ u, filled record policy (splitExtension name).1 = .ok u →
      blocks u = [] ∧ NoBlocks record policy rest))
  | .root :: rest | .current :: rest | .parent :: rest => decidableNoBlocks record policy rest

def Engine.component (e : Engine) (record : Value) : Component → Logged Text
  | .normal name =>
    (withExtension · (splitExtension name).2) <$> e.render (splitExtension name).1 record
  | c => pure c.text

theorem renderName_eq (name : Text) :
    e.renderName record name = e.component record (.normal name) := by
  rw [Engine.renderName, Engine.component, ← bind_pure_comp]
  obtain ⟨stem, extension⟩ := splitExtension name
  cases extension <;> rfl

theorem pushRendered_eq (target : Text) (cs : List Component) :
    e.pushRendered record target cs =
      (fun texts ↦ texts.foldl push target) <$> cs.mapM (e.component record) := by
  induction cs generalizing target with
  | nil => rfl
  | cons c cs ih =>
    have hstep : e.pushRendered record target (c :: cs) =
        e.component record c >>= fun text ↦ e.pushRendered record (push target text) cs := by
      cases c with
      | normal name => rw [Engine.pushRendered, renderName_eq]
      | _ => exact (pure_bind _ _).symm
    simp only [hstep, ih, List.mapM_cons, List.foldl_cons, ← bind_pure_comp,
      bind_assoc, pure_bind]

theorem renderPath_result (e : Engine) (output : Text) (record : Value) :
    (e.renderPath output record).result =
      joined <$> (components output).mapM fun c ↦ (e.component record c).result := by
  rw [Engine.renderPath, pushRendered_eq, ← mapM_result]
  simp only [Logged.bind_result, Logged.map_result]
  cases ((components output).mapM (e.component record)).result <;> rfl

theorem scalarPass_result (e : Engine) (record : Value) (t : Text) :
    (e.scalarPass t record).result = filled record e.options.missing t := by
  rw [Engine.scalarPass, splice_scalarPieces, Logged.bind_result, Logged.tell_result]
  simp only [bind, Except.bind, Logged.map_result, mapM_result, Document.resolveIn_result]
  rfl

theorem render_of_filled (h : filled record e.options.missing t = .ok u) :
    (e.render t record).result = (e.blockPass u record).result := by
  rw [Engine.render, Logged.bind_result, scalarPass_result, h]
  rfl

theorem component_result (e : Engine) (record : Value) (name : Text) :
    (e.component record (.normal name)).result =
      (withExtension · (splitExtension name).2) <$>
        (e.render (splitExtension name).1 record).result :=
  Logged.map_result _ _

theorem component_of_blocks_eq_nil
    (hu : filled record e.options.missing (splitExtension name).1 = .ok u) (h : blocks u = []) :
    (e.component record (.normal name)).result =
      .ok (withExtension u (splitExtension name).2) := by
  rw [component_result, render_of_filled hu, blockPass_of_blocks_eq_nil h]
  rfl

theorem component_of_error
    (h : filled record e.options.missing (splitExtension name).1 = .error err) :
    (e.component record (.normal name)).result = .error err := by
  rw [component_result, Engine.render, Logged.bind_result, scalarPass_result, h]
  rfl

theorem component_of_blocks_ne_nil (hempty : e.directives = .empty)
    (hu : filled record e.options.missing (splitExtension name).1 = .ok u) (h : blocks u ≠ []) :
    ∃ keyword, (e.component record (.normal name)).result = .error (.unknownDirective keyword) := by
  obtain ⟨b, bs, hblocks⟩ := List.exists_cons_of_ne_nil h
  obtain ⟨keyword, hgives⟩ : ∃ keyword, e.Gives record b (.error (.unknownDirective keyword)) := by
    cases hhead : b.head with
    | none => exact ⟨_, .noHead hhead⟩
    | some head => exact ⟨_, .unregistered hhead (by rw [hempty]; rfl)⟩
  have hpass : (e.blockPass u record).result = .error (.unknownDirective keyword) :=
    blockPass_eq_error.2 ⟨[], b, bs, hblocks, List.forall_mem_nil _, hgives⟩
  refine ⟨keyword, ?_⟩
  rw [component_result, render_of_filled hu, hpass]
  rfl

theorem mapM_component_result (h : NoBlocks record e.options.missing cs) :
    (cs.mapM fun c ↦ (e.component record c).result) =
      cs.mapM (filledComponent record e.options.missing) := by
  induction cs with
  | nil => rfl
  | cons c cs ih =>
    rw [List.mapM_cons, List.mapM_cons]
    cases c with
    | normal name =>
      cases hu : filled record e.options.missing (splitExtension name).1 with
      | error err =>
        rw [component_of_error hu, filledComponent, hu]
        rfl
      | ok u =>
        obtain ⟨hblocks, hrest⟩ := h u hu
        rw [component_of_blocks_eq_nil hu hblocks, filledComponent, hu, ih hrest]
        rfl
    | _ => rw [ih h]; rfl

theorem renderPath_of_noBlocks (h : NoBlocks record e.options.missing (components output)) :
    (e.renderPath output record).result = filledPath record e.options.missing output := by
  rw [renderPath_result, mapM_component_result h, filledPath]

theorem component_directives (h : ∀ u, filled record e.options.missing (splitExtension name).1 = .ok u →
    blocks u = []) (directives : Directives) :
    ({ e with directives } : Engine).component record (.normal name) =
      e.component record (.normal name) := by
  have hrender : ({ e with directives } : Engine).render (splitExtension name).1 record =
      e.render (splitExtension name).1 record := by
    refine Logged.bind_congr fun u hu ↦ ?_
    have hfilled := (scalarPass_result e record (splitExtension name).1).symm.trans hu
    rw [blockPass_eq_of_blocks_eq_nil (h u hfilled), blockPass_eq_of_blocks_eq_nil (h u hfilled)]
  rw [Engine.component, Engine.component, hrender]

theorem exists_filled_of_component {text : Text}
    (h : (e.component record (.normal name)).result = .ok text) :
    ∃ u, filled record e.options.missing (splitExtension name).1 = .ok u := by
  rw [component_result] at h
  obtain ⟨x, hx, -⟩ := map_eq_ok.1 h
  obtain ⟨u, hu, -⟩ := render_eq_ok.1 hx
  exact ⟨u, (scalarPass_result e record _).symm.trans hu⟩

theorem mapM_component_eq (h : NoBlocks record e.options.missing cs) (directives : Directives) :
    cs.mapM (({ e with directives } : Engine).component record) = cs.mapM (e.component record) := by
  induction cs with
  | nil => rw [List.mapM_nil, List.mapM_nil]
  | cons c cs ih =>
    have hstep (hc : ({ e with directives } : Engine).component record c = e.component record c)
        (hrest : ∀ text, (e.component record c).result = .ok text →
          NoBlocks record e.options.missing cs) :
        (c :: cs).mapM (({ e with directives } : Engine).component record) =
          (c :: cs).mapM (e.component record) := by
      rw [List.mapM_cons, List.mapM_cons, hc]
      refine Logged.bind_congr fun text htext ↦ ?_
      rw [ih (hrest text htext)]
    cases c with
    | normal name =>
      -- The names behind this one are free of blocks only if its stem can be filled.
      refine hstep (component_directives (fun u hu ↦ (h u hu).1) directives) fun text htext ↦ ?_
      obtain ⟨u, hu⟩ := exists_filled_of_component htext
      exact (h u hu).2
    | _ => exact hstep rfl fun _ _ ↦ h

theorem renderPath_directives (h : NoBlocks record e.options.missing (components output))
    (directives : Directives) :
    ({ e with directives } : Engine).renderPath output record = e.renderPath output record := by
  rw [Engine.renderPath, Engine.renderPath, pushRendered_eq, pushRendered_eq,
    mapM_component_eq h]

theorem noBlocks_of_ne_unknownDirective (hempty : e.directives = .empty)
    (h : ∀ keyword, (cs.mapM fun c ↦ (e.component record c).result) ≠
      .error (.unknownDirective keyword)) : NoBlocks record e.options.missing cs := by
  induction cs with
  | nil => trivial
  | cons c cs ih =>
    have hrest (hc : ∃ text, (e.component record c).result = .ok text) :
        NoBlocks record e.options.missing cs :=
      ih fun keyword hcs ↦ h keyword (mapM_cons_eq_error.2 (.inr ⟨hc, hcs⟩))
    cases c with
    | normal name =>
      intro u hu
      have hblocks : blocks u = [] := by
        by_contra hne
        obtain ⟨keyword, hkeyword⟩ := component_of_blocks_ne_nil hempty hu hne
        exact h keyword (mapM_cons_eq_error.2 (.inl hkeyword))
      exact ⟨hblocks, hrest ⟨_, component_of_blocks_eq_nil hu hblocks⟩⟩
    | _ => exact hrest ⟨_, rfl⟩

theorem filled_eq_error (h : filled record policy t = .error err) :
    policy = .strict ∧ ∃ p ∈ scalars t, record.lookup p.path = none ∧ err = .missingField p.path := by
  obtain ⟨done, p, rest, hscalars, -, hp⟩ := mapM_eq_error.1 (map_eq_error.1 h)
  obtain ⟨hstrict, hnone, herr⟩ := insertedText_eq_error.1 hp
  have hmem : p ∈ scalars t := by simp [hscalars]
  exact ⟨hstrict, p, hmem, hnone, herr⟩

theorem filledPath_eq_error (h : filledPath record policy output = .error err) :
    policy = .strict ∧ ∃ name, .normal name ∈ components output ∧
      ∃ p ∈ scalars (splitExtension name).1, record.lookup p.path = none ∧
        err = .missingField p.path := by
  obtain ⟨done, c, rest, hcomponents, -, hc⟩ := mapM_eq_error.1 (map_eq_error.1 h)
  have hmem : c ∈ components output := by simp [hcomponents]
  cases c with
  | normal name =>
    obtain ⟨hstrict, hcause⟩ := filled_eq_error (map_eq_error.1 hc)
    exact ⟨hstrict, name, hmem, hcause⟩
  | _ => cases hc

/-- All that becomes of an output is that the placeholders in the stems of its names are filled. -/
structure FillsOnly (e : Engine) (record : Value) (output : Text) : Prop where
  result_eq : (e.renderPath output record).result = filledPath record e.options.missing output
  directives_irrelevant : ∀ directives,
    ({ e with directives } : Engine).renderPath output record = e.renderPath output record
  cause_of_error : ∀ err, (e.renderPath output record).result = .error err →
    e.options.missing = .strict ∧ ∃ name, .normal name ∈ components output ∧
      ∃ p ∈ scalars (splitExtension name).1, record.lookup p.path = none ∧
        err = .missingField p.path
  succeeds : e.options.missing ≠ .strict → ∃ p, (e.renderPath output record).result = .ok p

theorem fillsOnly (h : NoBlocks record e.options.missing (components output)) :
    FillsOnly e record output := by
  have hresult := renderPath_of_noBlocks h
  have hcause (err : Error) (herr : (e.renderPath output record).result = .error err) :=
    filledPath_eq_error (hresult.symm.trans herr)
  refine ⟨hresult, renderPath_directives h, hcause, fun hpolicy ↦ ?_⟩
  cases hp : (e.renderPath output record).result with
  | error err => exact absurd (hcause err hp).1 hpolicy
  | ok p => exact ⟨p, rfl⟩

theorem noBlocks_of_fillsOnly (hempty : e.directives = .empty) (h : FillsOnly e record output) :
    NoBlocks record e.options.missing (components output) := by
  refine noBlocks_of_ne_unknownDirective hempty fun keyword hkeyword ↦ ?_
  have herror : (e.renderPath output record).result = .error (.unknownDirective keyword) := by
    rw [renderPath_result, hkeyword]
    rfl
  obtain ⟨-, name, -, p, -, -, hcause⟩ := h.cause_of_error _ herror
  cases hcause

/-- Each component of an output is rendered apart, with its extension kept. Nothing but placeholders is
filled in it, whatever directives there are, exactly if no stem has a block in it once its placeholders
are filled. -/
theorem renderPath_fills (e : Engine) (output : Text) (record : Value) :
    ((e.renderPath output record).result =
      joined <$> (components output).mapM fun c ↦ (e.component record c).result) ∧
    (NoBlocks record e.options.missing (components output) ↔
      ∀ directives, FillsOnly { e with directives } record output) := by
  refine ⟨renderPath_result e output record, fun h directives ↦ fillsOnly h, fun h ↦ ?_⟩
  -- Without directives the first block that is reached fails the render, with an error of its own.
  exact noBlocks_of_fillsOnly (e := { e with directives := .empty }) rfl (h .empty)

/-- An opener in one name, and in the next one a placeholder that a closer is inserted for. -/
def openerAboveCloser : Text :=
  ['~', '.', 'q', ' ', 'b', '.', 'd', '/', '~', 'x', '-', '~', 'y', '.', 't']

theorem renderPath_fills_openerAboveCloser :
    NoBlocks (.record [(['x'], .text closing)]) .undefined (components openerAboveCloser) ∧
      FillsOnly quotingEngine (.record [(['x'], .text closing)]) openerAboveCloser ∧
      (quotingEngine.renderPath openerAboveCloser (.record [(['x'], .text closing)])).result =
        .ok (['~', '.', 'q', ' ', 'b', '.', 'd', '/'] ++ closing ++ '-' :: undefinedText ++
          ['.', 't']) := by
  have hnone : NoBlocks (.record [(['x'], .text closing)]) .undefined
      (components openerAboveCloser) := by decide
  have hfills : FillsOnly quotingEngine (.record [(['x'], .text closing)]) openerAboveCloser :=
    (renderPath_fills quotingEngine openerAboveCloser (.record [(['x'], .text closing)])).2.1 hnone
      quotingEngine.directives
  refine ⟨hnone, hfills, hfills.result_eq.trans ?_⟩
  decide

def blockInName : Text :=
  ['~', '.', 'x'] ++ closing ++ ['.', 't']

/-- The block of a stem is handed to its directive. -/
theorem not_fillsOnly_blockInName :
    filledPath (.record []) .undefined blockInName = .ok blockInName ∧
      (({} : Engine).renderPath blockInName (.record [])).result =
        .error (.unknownDirective ['x']) ∧
      ¬ FillsOnly {} (.record []) blockInName := by
  have hresult : (({} : Engine).renderPath blockInName (.record [])).result =
      .error (.unknownDirective ['x']) := rfl
  refine ⟨by decide, hresult, fun hfills ↦ ?_⟩
  obtain ⟨hstrict, -⟩ := hfills.cause_of_error _ hresult
  cases hstrict

theorem render_of_tilde_notMem (h : '~' ∉ t) (e : Engine) (record : Value) :
    (e.render t record).result = .ok t := by
  have hpieces : scalarPieces t = t.map .plain := by
    have happend := scalarPieces_append_of_plain h []
    rw [List.append_nil] at happend
    exact happend.trans (List.append_nil _)
  have hscalars : (e.scalarPass t record).result = .ok t := by
    rw [Engine.scalarPass, hpieces, splice_plain]
    rfl
  have hclosing : ¬ closing <:+: t := fun hi ↦ h (hi.subset List.mem_cons_self)
  refine render_eq_ok.2 ⟨t, hscalars, ?_⟩
  rw [blockPass_result, sections_of_toCloser_eq_none (toCloser_eq_none hclosing),
    renderSections_plain, Logged.pure_result]

theorem component_of_tilde_notMem (h : '~' ∉ name) (e : Engine) (record : Value) :
    (e.component record (.normal name)).result = .ok name := by
  have hwhole := withExtension_splitExtension name
  have hstem : '~' ∉ (splitExtension name).1 := by
    intro hmem
    rw [← hwhole] at h
    cases hext : (splitExtension name).2 <;> simp_all [withExtension]
  rw [component_result, render_of_tilde_notMem hstem]
  exact congrArg Except.ok hwhole

theorem renderPath_of_tilde_notMem (h : ∀ name, .normal name ∈ components output → '~' ∉ name)
    (e : Engine) (record : Value) : (e.renderPath output record).result =
      .ok (joined ((components output).map Component.text)) := by
  have hcomponents : ∀ c ∈ components output, (e.component record c).result = .ok c.text := by
    intro c hc
    cases c with
    | normal name => exact component_of_tilde_notMem (h name hc) e record
    | _ => rfl
  have htexts : ((components output).mapM fun c ↦ (e.component record c).result) =
      .ok ((components output).map Component.text) :=
    mapM_eq_ok.2 (List.forall₂_map_right_iff.2 (List.forall₂_same.2 hcomponents))
  rw [renderPath_result, htexts]
  rfl

/-- An output without a tilde is rendered to a path with the same components, by every engine and for
every record, and this path is then rendered to itself. -/
theorem renderPath_keeps (h : '~' ∉ output) :
    ∃ p, components p = components output ∧ ∀ (e : Engine) (record : Value),
      (e.renderPath output record).result = .ok p ∧ (e.renderPath p record).result = .ok p := by
  have hnames : ∀ name, .normal name ∈ components output → '~' ∉ name :=
    fun name hname htilde ↦ h ((segment_of_mem_components hname).1.subset htilde)
  have hsame := components_joined output
  refine ⟨_, hsame, fun e record ↦ ⟨renderPath_of_tilde_notMem hnames e record, ?_⟩⟩
  have hagain := renderPath_of_tilde_notMem (hsame.symm ▸ hnames) e record
  rwa [hsame] at hagain

def dottedNames : Text :=
  ['.', '/', '/', '.', 'a', '/', '.', '/', 'b', '.', '/', '.', '.', '/', '.', '.', '.', '/', 'c',
    '.', 'd', '.', 'e', '/']

theorem renderPath_keeps_dottedNames :
    '~' ∉ dottedNames ∧
      components dottedNames = [.current, .normal ['.', 'a'], .normal ['b', '.'], .parent,
        .normal ['.', '.', '.'], .normal ['c', '.', 'd', '.', 'e']] ∧
      ∃ p, components p = components dottedNames ∧
        (quotingEngine.renderPath dottedNames .null).result = .ok p ∧
        (quotingEngine.renderPath p .null).result = .ok p := by
  have h : '~' ∉ dottedNames := by decide
  obtain ⟨p, hp, hrender⟩ := renderPath_keeps h
  exact ⟨h, by decide, p, hp, hrender quotingEngine .null⟩

end TildeMerge
