import TildeMerge.Proofs.Dispatch
import TildeMerge.Proofs.Replacement

namespace TildeMerge

open Markup

variable {α β : Type} {e : Engine} {keyword : Text} {b : Block}

/-- Two ways of going through a list are one and the same, unless they part at a member that the first
of them comes to. -/
theorem mapM_eq_or_exists_ne (f g : α → Logged β) (l : List α) :
    l.mapM g = l.mapM f ∨
      ∃ done a rest, l = done ++ a :: rest ∧ (∀ d ∈ done, ∃ x, (f d).result = .ok x) ∧
        g a ≠ f a := by
  induction l with
  | nil => exact .inl rfl
  | cons a l ih =>
    by_cases ha : g a = f a
    · cases hf : (f a).result with
      | error err =>
        left
        rw [List.mapM_cons, List.mapM_cons, ha, Logged.bind_eq_of_error _ hf,
          Logged.bind_eq_of_error _ hf]
      | ok x =>
        rcases ih with hl | ⟨done, d, rest, rfl, hdone, hd⟩
        · left
          rw [List.mapM_cons, List.mapM_cons, ha, hl]
        · exact .inr ⟨a :: done, d, rest, rfl, List.forall_mem_cons.2 ⟨⟨x, hf⟩, hdone⟩, hd⟩
    · exact .inr ⟨[], a, l, rfl, List.forall_mem_nil _, ha⟩

/-- A block of the text asks for the directive, and those before it have their replies. -/
def Engine.ComesTo (e : Engine) (record : Value) (keyword u : Text) : Prop :=
  ∃ done b rest head, blocks u = done ++ b :: rest ∧ (∀ a ∈ done, ∃ d, e.Gives record a (.ok d)) ∧
    b.head = some head ∧ head.directive = keyword

section

variable (directive : Directive) (record : Value)

theorem exists_head_of_handOver_register_ne
    (h : (e.register keyword directive).handOver record b ≠ e.handOver record b) :
    ∃ head, b.head = some head ∧ head.directive = keyword := by
  by_contra hnone
  refine h ?_
  unfold Engine.handOver
  cases hhead : b.head with
  | none => rfl
  | some head =>
    have hne : head.directive ≠ keyword := fun heq ↦ hnone ⟨head, hhead, heq⟩
    exact Logged.bind_congr fun _ _ ↦ dispatch_register_of_ne _ _ _ directive hne

theorem blockPass_register (hk : e.directives.contains keyword = false) (u : Text) :
    (e.register keyword directive).blockPass u record = e.blockPass u record ∨
      e.ComesTo record keyword u ∧
        (e.blockPass u record).result = .error (.unknownDirective keyword) := by
  rcases mapM_eq_or_exists_ne (e.handOver record) ((e.register keyword directive).handOver record)
    (blocks u) with heq | ⟨done, b, rest, hblocks, hdone, hb⟩
  · left
    rw [blockPass_eq, blockPass_eq, heq]
  · right
    obtain ⟨head, hhead, hkey⟩ := exists_head_of_handOver_register_ne directive record hb
    have hgives : ∀ a ∈ done, ∃ d, e.Gives record a (.ok d) := by
      intro a ha
      obtain ⟨d, hd⟩ := hdone a ha
      exact ⟨d, gives_iff.2 hd⟩
    have hlookup : e.directives.table.lookup head.directive = none := by
      rw [hkey]
      exact lookup_of_contains_eq_false hk
    have herr : e.Gives record b (.error (.unknownDirective keyword)) :=
      hkey ▸ .unregistered hhead hlookup
    exact ⟨⟨done, b, rest, head, hblocks, hgives, hhead, hkey⟩,
      blockPass_eq_error.2 ⟨done, b, rest, hblocks, hgives, herr⟩⟩

theorem scalarPass_register (t : Text) :
    (e.register keyword directive).scalarPass t record = e.scalarPass t record := rfl

theorem comesTo_of_render_register_ne {t : Text} (hk : e.directives.contains keyword = false)
    (h : (e.register keyword directive).render t record ≠ e.render t record) :
    (∃ u, (e.scalarPass t record).result = .ok u ∧ e.ComesTo record keyword u) ∧
      (e.render t record).result = .error (.unknownDirective keyword) := by
  -- The first pass knows no directives, so the renders part in the second one.
  obtain ⟨u, hu, hpass⟩ : ∃ u, (e.scalarPass t record).result = .ok u ∧
      (e.register keyword directive).blockPass u record ≠ e.blockPass u record := by
    by_contra hnone
    apply h
    rw [Engine.render, Engine.render, scalarPass_register]
    apply Logged.bind_congr
    intro u hu
    by_contra hpass
    exact hnone ⟨u, hu, hpass⟩
  obtain ⟨hcomes, herr⟩ := (blockPass_register directive record hk u).resolve_left hpass
  refine ⟨⟨u, hu, hcomes⟩, ?_⟩
  rw [Engine.render, Logged.bind_eq_of_ok _ hu]
  exact herr

end

/-- A directive under a new keyword is conservative. A render that does not fail for that keyword stays
as it is, with its log; and where a render changes, it came to a block that asks for the keyword, and
failed there. -/
theorem register_conservative (e : Engine) (keyword : Text) (directive : Directive)
    (t : Text) (record : Value) (hk : e.directives.contains keyword = false) :
    ((e.render t record).result ≠ .error (.unknownDirective keyword) →
      (e.register keyword directive).render t record = e.render t record) ∧
    ((e.register keyword directive).render t record ≠ e.render t record →
      (∃ u, (e.scalarPass t record).result = .ok u ∧ e.ComesTo record keyword u) ∧
        (e.render t record).result = .error (.unknownDirective keyword)) := by
  refine ⟨fun hr ↦ ?_, comesTo_of_render_register_ne directive record hk⟩
  by_contra hne
  exact hr (comesTo_of_render_register_ne directive record hk hne).2

def unknownThenUp : Text :=
  opener ++ ['n', 'o', '\n'] ++ closing ++ opener ++ ['u', 'p', '\n', 'a', '\n'] ++ closing

def capitals : Directive := fun _ body _ _ ↦ pure (body.map Char.toUpper)

theorem register_conservative_unknownThenUp :
    ({} : Engine).directives.contains ['u', 'p'] = false ∧
      (({} : Engine).render unknownThenUp .null).result = .error (.unknownDirective ['n', 'o']) ∧
      (({} : Engine).register ['u', 'p'] capitals).render unknownThenUp .null =
        ({} : Engine).render unknownThenUp .null ∧
      ((({} : Engine).register ['u', 'p'] capitals).render (unknownThenUp.drop 10) .null).result =
        .ok ['A'] ∧
      (({} : Engine).render (unknownThenUp.drop 10) .null).result =
        .error (.unknownDirective ['u', 'p']) := by
  have hk : ({} : Engine).directives.contains ['u', 'p'] = false := by decide
  have hno : (({} : Engine).render unknownThenUp .null).result =
    .error (.unknownDirective ['n', 'o']) := rfl
  have hup : ((({} : Engine).register ['u', 'p'] capitals).render (unknownThenUp.drop 10)
    .null).result = .ok ['A'] := rfl
  refine ⟨hk, hno, (register_conservative {} _ capitals unknownThenUp .null hk).1 ?_, hup,
    ((register_conservative {} _ capitals (unknownThenUp.drop 10) .null hk).2 fun heq ↦ ?_).2⟩
  · rw [hno]
    decide
  · rw [heq] at hup
    cases hup

end TildeMerge
