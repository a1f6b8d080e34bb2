import TildeMerge.Proofs.Dispatch
import TildeMerge.Render.Engine

namespace TildeMerge

open Markup

variable {α β : Type}

/-- The path of a gap that an entry reports. -/
def LogEntry.gap? : LogEntry → Option Text
  | .noValue path _ => some path
  | _ => none

/-- The paths of the gaps that were filled, in order. -/
def Logged.gaps (x : Logged α) : List Text :=
  x.log.filterMap LogEntry.gap?

theorem Logged.gaps_bind_of_error {x : Logged α} (f : α → Logged β) {e : Error}
    (h : x.result = .error e) : (x >>= f).gaps = x.gaps := by
  rw [Logged.bind_eq_of_error f h]
  rfl

theorem Logged.gaps_bind_of_ok {x : Logged α} (f : α → Logged β) {a : α} (h : x.result = .ok a) :
    (x >>= f).gaps = x.gaps ++ (f a).gaps := by
  rw [Logged.bind_eq_of_ok f h]
  exact List.filterMap_append

/-- The second computation is the first one if that fills no gap, and otherwise it fails at the
first gap. -/
structure Tightens (lax strict : Logged α) : Prop where
  eq_of_no_gap : lax.gaps = [] → strict = lax
  fails_at_gap : ∀ path rest, lax.gaps = path :: rest → strict.result = .error (.missingField path)

namespace Tightens

theorem refl_of_no_gap {x : Logged α} (h : x.gaps = []) : Tightens x x := by
  refine ⟨fun _ ↦ rfl, fun path rest hgap ↦ ?_⟩
  rw [h] at hgap
  cases hgap

theorem bind {lax strict : Logged α} {f g : α → Logged β} (h : Tightens lax strict)
    (hf : ∀ a, Tightens (f a) (g a)) : Tightens (lax >>= f) (strict >>= g) := by
  cases hgap : lax.gaps with
  | cons path rest =>
    -- The gap is in the first part, which fails, so that the second part does not run.
    have hstrict : (strict >>= g).result = .error (.missingField path) := by
      rw [Logged.bind_eq_of_error g (h.fails_at_gap path rest hgap)]
    obtain ⟨more, hmore⟩ : ∃ more, (lax >>= f).gaps = path :: more := by
      cases hr : lax.result with
      | error e => exact ⟨rest, (Logged.gaps_bind_of_error f hr).trans hgap⟩
      | ok a =>
        refine ⟨rest ++ (f a).gaps, ?_⟩
        rw [Logged.gaps_bind_of_ok f hr, hgap, List.cons_append]
    refine ⟨fun hnil ↦ ?_, fun path' rest' hcons ↦ ?_⟩
    · rw [hmore] at hnil
      cases hnil
    · rw [hmore] at hcons
      obtain ⟨rfl, -⟩ := List.cons.inj hcons
      exact hstrict
  | nil =>
    obtain rfl := h.eq_of_no_gap hgap
    cases hr : strict.result with
    | error e =>
      rw [Logged.bind_eq_of_error f hr, Logged.bind_eq_of_error g hr]
      exact refl_of_no_gap hgap
    | ok a =>
      have hgaps : (strict >>= f).gaps = (f a).gaps := by
        rw [Logged.gaps_bind_of_ok f hr, hgap, List.nil_append]
      refine ⟨fun hnil ↦ ?_, fun path rest hcons ↦ ?_⟩
      · rw [Logged.bind_eq_of_ok f hr, Logged.bind_eq_of_ok g hr,
          (hf a).eq_of_no_gap (hgaps ▸ hnil)]
      · rw [Logged.bind_eq_of_ok g hr]
        exact (hf a).fails_at_gap path rest (hgaps ▸ hcons)

theorem map {lax strict : Logged α} (f : α → β) (h : Tightens lax strict) :
    Tightens (f <$> lax) (f <$> strict) := by
  rw [← bind_pure_comp, ← bind_pure_comp]
  exact h.bind fun a ↦ refl_of_no_gap rfl

end Tightens

theorem tightens_fill (policy : GapPolicy) (path : Text) :
    Tightens (policy.fill path) (GapPolicy.strict.fill path) := by
  cases policy with
  | undefined | empty =>
    refine ⟨fun hnil ↦ (by cases hnil), fun path' rest hcons ↦ ?_⟩
    obtain ⟨rfl, -⟩ := List.cons.inj hcons
    rfl
  | strict => exact .refl_of_no_gap rfl

theorem tightens_resolveIn (record : Value) (policy : GapPolicy) (path : Text) :
    Tightens (resolveIn record policy path) (resolveIn record .strict path) := by
  unfold resolveIn
  cases record.lookup path with
  | some v => exact .refl_of_no_gap rfl
  | none => exact tightens_fill policy path

theorem tightens_splice (record : Value) (policy : GapPolicy) (pieces : List Piece) :
    Tightens (splice (resolveIn record policy) pieces) (splice (resolveIn record .strict) pieces) := by
  induction pieces with
  | nil => exact .refl_of_no_gap rfl
  | cons piece rest ih =>
    cases piece with
    | plain c => exact ih.map _
    | placeholder path => exact (tightens_resolveIn record policy path).bind fun t ↦ ih.map _

variable (policy : GapPolicy) (terminator : Text)

theorem tightens_renderItems (body : List Piece) (items : List Value) :
    Tightens (Directive.renderItems body ⟨policy, terminator⟩ items)
      (Directive.renderItems body ⟨.strict, terminator⟩ items) := by
  induction items with
  | nil => exact .refl_of_no_gap rfl
  | cons item rest ih => exact (tightens_splice item policy body).bind fun t ↦ ih.map _

theorem tightens_forEach (head : Head) (body : Text) (record : Value) :
    Tightens (Directive.forEach head body record ⟨policy, terminator⟩)
      (Directive.forEach head body record ⟨.strict, terminator⟩) := by
  unfold Directive.forEach
  dsimp only
  cases record.lookup (head.collection.getD []) with
  | none => exact (tightens_fill policy _).bind fun _ ↦ .refl_of_no_gap rfl
  | some v =>
    cases v with
    | list items =>
      exact .bind (.refl_of_no_gap rfl) fun _ ↦ tightens_renderItems policy terminator _ items
    | _ => exact .refl_of_no_gap rfl

def standardEngine : Engine :=
  { options := ⟨policy, terminator⟩ }

theorem tightens_renderBlock (region : Text) (record : Value) :
    Tightens ((standardEngine policy terminator).renderBlock region record)
      ((standardEngine .strict terminator).renderBlock region record) := by
  unfold Engine.renderBlock
  cases Head.parse region.firstLine with
  | none => exact .refl_of_no_gap rfl
  | some head =>
    refine .bind (.refl_of_no_gap rfl) fun _ ↦ ?_
    simp only [standardEngine, dispatch_standard]
    split
    · exact tightens_forEach policy terminator head (bodyOf region) record
    · exact .refl_of_no_gap rfl

theorem tightens_renderSections (record : Value) (sections : List Section) :
    Tightens ((standardEngine policy terminator).renderSections record sections)
      ((standardEngine .strict terminator).renderSections record sections) := by
  induction sections with
  | nil => exact .refl_of_no_gap rfl
  | cons s rest ih =>
    cases s with
    | plain c => exact ih.map _
    | block region =>
      exact (tightens_renderBlock policy terminator region record).bind fun t ↦ ih.map _

theorem gaps_reportUnclosed (leftovers : List Leftover) :
    (Engine.reportUnclosed leftovers).gaps = [] := by
  induction leftovers with
  | nil => rfl
  | cons l rest ih =>
    rw [Engine.reportUnclosed]
    cases l.isUnclosed
    · exact ih
    · exact ih

theorem tightens_blockPass (t : Text) (record : Value) :
    Tightens ((standardEngine policy terminator).blockPass t record)
      ((standardEngine .strict terminator).blockPass t record) := by
  refine .bind (.refl_of_no_gap rfl) fun _ ↦ ?_
  refine (tightens_renderSections policy terminator record _).bind fun text ↦ ?_
  exact .bind (.refl_of_no_gap (gaps_reportUnclosed _)) fun _ ↦ .refl_of_no_gap rfl

theorem tightens_render (template : Text) (record : Value) :
    Tightens ((standardEngine policy terminator).render template record)
      ((standardEngine .strict terminator).render template record) := by
  refine .bind ?_ fun text ↦ tightens_blockPass policy terminator text record
  exact .bind (.refl_of_no_gap rfl) fun _ ↦ tightens_splice record policy _

/-- A strict render is the render under any other policy if that one fills no gap, and otherwise
fails with the first path that it fills. -/
theorem strict_render (template : Text) (record : Value) :
    (((standardEngine policy terminator).render template record).gaps = [] →
      ((standardEngine .strict terminator).render template record).result =
        ((standardEngine policy terminator).render template record).result ∧
      ((standardEngine .strict terminator).render template record).gaps = []) ∧
    (∀ path rest, ((standardEngine policy terminator).render template record).gaps = path :: rest →
      ((standardEngine .strict terminator).render template record).result =
        .error (.missingField path)) := by
  have h := tightens_render policy terminator template record
  refine ⟨fun hnil ↦ ?_, h.fails_at_gap⟩
  rw [h.eq_of_no_gap hnil]
  exact ⟨rfl, hnil⟩

def gapThenUnknown : Text :=
  ['~', '.', 'f', 'o', 'r', ' ', '.', 'x', '\n', '~', '.', 'e', 'n', 'd', '~', '.', 'n', 'o', '\n',
    '~', '.', 'e', 'n', 'd']

theorem strict_render_gapThenUnknown :
    ((standardEngine .undefined []).render gapThenUnknown (.record [])).result =
        .error (.unknownDirective ['n', 'o']) ∧
      ((standardEngine .undefined []).render gapThenUnknown (.record [])).gaps = [['x']] ∧
      ((standardEngine .strict []).render gapThenUnknown (.record [])).result =
        .error (.missingField ['x']) := by
  have hgaps : ((standardEngine .undefined []).render gapThenUnknown (.record [])).gaps = [['x']] := by
    decide
  exact ⟨rfl, hgaps, (strict_render .undefined [] gapThenUnknown (.record [])).2 _ _ hgaps⟩

end TildeMerge
