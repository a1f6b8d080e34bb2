import TildeMerge.Proofs.NamedData
import TildeMerge.Render.OutputPath

namespace TildeMerge

open Markup

variable {α β : Type} {p : Error → Prop}

/-- If the result is an error at all, it is one of these. -/
def FailsOnly (p : Error → Prop) (x : Except Error α) : Prop :=
  ∀ e, x = .error e → p e

namespace FailsOnly

theorem ok (a : α) : FailsOnly p (.ok a : Except Error α) := by
  intro e h
  cases h

theorem error {e : Error} (h : p e) : FailsOnly p (.error e : Except Error α) := by
  intro e' he'
  obtain rfl := Except.error.inj he'
  exact h

theorem bind {x : Except Error α} {f : α → Except Error β} (h : FailsOnly p x)
    (hf : ∀ a, FailsOnly p (f a)) : FailsOnly p (x >>= f) := by
  intro e he
  cases x with
  | error e' =>
    obtain rfl := Except.error.inj he
    exact h e' rfl
  | ok a => exact hf a e he

theorem map {x : Except Error α} (f : α → β) (h : FailsOnly p x) : FailsOnly p (f <$> x) := by
  intro e he
  cases x with
  | error e' =>
    obtain rfl := Except.error.inj he
    exact h e' rfl
  | ok a => cases he

theorem mono {q : Error → Prop} {x : Except Error α} (h : FailsOnly p x) (hpq : ∀ e, p e → q e) :
    FailsOnly q x := by
  intro e he
  exact hpq e (h e he)

end FailsOnly

def Error.StopsRender : Error → Prop
  | unknownDirective _ | missingField _ | notACollection _ => True
  | _ => False

open Error (StopsRender)

theorem failsOnly_fill (policy : GapPolicy) (path : Text) :
    FailsOnly StopsRender (policy.fill path).result := by
  cases policy with
  | undefined | empty => exact .ok _
  | strict => exact .error trivial

theorem failsOnly_resolveIn (record : Value) (policy : GapPolicy) (path : Text) :
    FailsOnly StopsRender (resolveIn record policy path).result := by
  unfold resolveIn
  cases record.lookup path with
  | some v => exact .ok _
  | none => exact failsOnly_fill policy path

theorem failsOnly_splice {resolve : Text → Logged Text}
    (h : ∀ path, FailsOnly p (resolve path).result) (pieces : List Piece) :
    FailsOnly p (splice resolve pieces).result := by
  induction pieces with
  | nil => exact .ok _
  | cons piece rest ih =>
    cases piece with
    | plain c => exact ih.map _
    | placeholder path =>
      rw [splice, Logged.bind_result]
      exact (h path).bind fun text ↦ ih.map _

theorem failsOnly_renderItems (body : List Piece) (options : Options) (items : List Value) :
    FailsOnly StopsRender (Directive.renderItems body options items).result := by
  induction items with
  | nil => exact .ok _
  | cons item rest ih =>
    rw [Directive.renderItems, Logged.bind_result]
    exact (failsOnly_splice (failsOnly_resolveIn item options.missing) body).bind fun text ↦ ih.map _

theorem failsOnly_forEach (head : Head) (body : Text) (record : Value) (options : Options) :
    FailsOnly StopsRender (Directive.forEach head body record options).result := by
  cases h : record.lookup (head.collection.getD []) with
  | none =>
    simp only [Directive.forEach, h, Logged.bind_result]
    exact (failsOnly_fill _ _).bind fun _ ↦ .ok _
  | some v =>
    by_cases hlist : ∃ items, v = .list items
    · obtain ⟨items, rfl⟩ := hlist
      simp only [Directive.forEach, h, Logged.bind_result, Logged.tell_result]
      exact failsOnly_renderItems _ _ _
    · rw [forEach_of_no_list h (not_exists.1 hlist)]
      exact .error trivial

variable (options : Options) (record : Value)

theorem failsOnly_renderBlock (region : Text) :
    FailsOnly StopsRender (({ options } : Engine).renderBlock region record).result := by
  unfold Engine.renderBlock
  cases Head.parse region.firstLine with
  | none => exact .error trivial
  | some head =>
    simp only [Logged.bind_result, Logged.tell_result]
    refine (FailsOnly.ok ()).bind fun _ ↦ ?_
    rw [dispatch_standard]
    split
    · exact failsOnly_forEach _ _ _ _
    · exact .error trivial

theorem failsOnly_renderSections (ss : List Section) :
    FailsOnly StopsRender (({ options } : Engine).renderSections record ss).result := by
  induction ss with
  | nil => exact .ok _
  | cons piece rest ih =>
    cases piece with
    | plain c => exact ih.map _
    | block region =>
      rw [Engine.renderSections, Logged.bind_result]
      exact (failsOnly_renderBlock options record region).bind fun text ↦ ih.map _

theorem failsOnly_render (template : Text) :
    FailsOnly StopsRender (({ options } : Engine).render template record).result := by
  rw [Engine.render, Logged.bind_result]
  refine .bind ?_ fun text ↦ ?_
  · exact failsOnly_splice (failsOnly_resolveIn record options.missing) _
  · rw [blockPass_result]
    exact failsOnly_renderSections options record _

theorem failsOnly_renderName (name : Text) :
    FailsOnly StopsRender (({ options } : Engine).renderName record name).result := by
  rw [Engine.renderName, Logged.bind_result]
  exact (failsOnly_render options record _).bind fun text ↦ .ok _

theorem failsOnly_pushRendered (target : Text) (cs : List Path.Component) :
    FailsOnly StopsRender (({ options } : Engine).pushRendered record target cs).result := by
  induction cs generalizing target with
  | nil => exact .ok _
  | cons c rest ih =>
    cases c with
    | normal name =>
      rw [Engine.pushRendered, Logged.bind_result]
      exact (failsOnly_renderName options record name).bind fun text ↦ ih _
    | _ => exact ih _

theorem failsOnly_renderPath (output : Text) :
    FailsOnly StopsRender (({ options } : Engine).renderPath output record).result := by
  simp only [Engine.renderPath, Logged.bind_result]
  exact (failsOnly_pushRendered options record [] _).bind fun target ↦ .ok _

end TildeMerge
