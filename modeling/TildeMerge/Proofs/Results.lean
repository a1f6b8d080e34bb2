import TildeMerge.Error
import Mathlib.Data.List.Forall2

namespace TildeMerge

variable {ε α β γ δ : Type}

theorem bind_eq_ok {x : Except ε α} {f : α → Except ε β} {b : β} :
    x >>= f = .ok b ↔ ∃ a, x = .ok a ∧ f a = .ok b := by
  cases x <;> simp [bind, Except.bind]

theorem map_eq_ok {f : α → β} {x : Except ε α} {b : β} :
    f <$> x = .ok b ↔ ∃ a, x = .ok a ∧ f a = b := by
  cases x <;> simp [Functor.map, Except.map]

theorem map_eq_error {f : α → β} {x : Except ε α} {err : ε} :
    f <$> x = .error err ↔ x = .error err := by
  cases x <;> simp [Functor.map, Except.map]

theorem guard_bind_eq_ite {p : Prop} [Decidable p] (r : Option α) :
    (guard p >>= fun _ ↦ r) = if p then r else none := by
  unfold guard
  split
  · rfl
  · rfl

theorem mapM_cons_eq_ok {f : α → Except Error β} {a : α} {l : List α} {bs : List β} :
    (a :: l).mapM f = .ok bs ↔ ∃ b bs', f a = .ok b ∧ l.mapM f = .ok bs' ∧ b :: bs' = bs := by
  rw [List.mapM_cons]
  cases f a <;> cases l.mapM f <;> simp [bind, Except.bind, pure, Except.pure]

theorem mapM_cons_eq_error {f : α → Except Error β} {a : α} {l : List α} {err : Error} :
    (a :: l).mapM f = .error err ↔ f a = .error err ∨ (∃ b, f a = .ok b) ∧ l.mapM f = .error err := by
  rw [List.mapM_cons]
  cases f a <;> cases l.mapM f <;> simp [bind, Except.bind, pure, Except.pure]

theorem mapM_eq_ok {f : α → Except Error β} {l : List α} {bs : List β} :
    l.mapM f = .ok bs ↔ List.Forall₂ (fun a b ↦ f a = .ok b) l bs := by
  induction l generalizing bs with
  | nil =>
    rw [List.forall₂_nil_left_iff, List.mapM_nil]
    exact ⟨fun h ↦ (Except.ok.inj h).symm, fun h ↦ congrArg _ h.symm⟩
  | cons a l ih =>
    rw [mapM_cons_eq_ok, List.forall₂_cons_left_iff]
    constructor
    · rintro ⟨b, bs', hb, hbs, rfl⟩
      exact ⟨b, bs', hb, ih.1 hbs, rfl⟩
    · rintro ⟨b, bs', hb, hbs, rfl⟩
      exact ⟨b, bs', hb, ih.2 hbs, rfl⟩

theorem mapM_eq_error {f : α → Except Error β} {l : List α} {err : Error} :
    l.mapM f = .error err ↔
      ∃ done a rest, l = done ++ a :: rest ∧ (∀ d ∈ done, ∃ b, f d = .ok b) ∧ f a = .error err := by
  induction l with
  | nil =>
    constructor
    · intro h
      cases h
    · rintro ⟨done, a, rest, hl, -⟩
      cases done <;> cases hl
  | cons a l ih =>
    rw [mapM_cons_eq_error, ih]
    constructor
    · rintro (ha | ⟨ha, done, d, rest, rfl, hdone, hd⟩)
      · exact ⟨[], a, l, rfl, List.forall_mem_nil _, ha⟩
      · exact ⟨a :: done, d, rest, rfl, List.forall_mem_cons.2 ⟨ha, hdone⟩, hd⟩
    · rintro ⟨done, d, rest, hl, hdone, hd⟩
      cases done with
      | nil =>
        obtain ⟨rfl, -⟩ := List.cons.inj hl
        exact .inl hd
      | cons d' done =>
        obtain ⟨rfl, rfl⟩ := List.cons.inj hl
        obtain ⟨ha, hdone⟩ := List.forall_mem_cons.1 hdone
        exact .inr ⟨ha, done, d, rest, rfl, hdone, hd⟩

theorem exists_mapM_iff {f : α → Except Error β} {l : List α} :
    (∃ bs, l.mapM f = .ok bs) ↔ ∀ a ∈ l, ∃ b, f a = .ok b := by
  induction l with
  | nil => exact iff_of_true ⟨[], rfl⟩ (List.forall_mem_nil _)
  | cons a l ih =>
    rw [List.forall_mem_cons, ← ih]
    constructor
    · rintro ⟨bs, h⟩
      obtain ⟨b, bs', hb, hbs, -⟩ := mapM_cons_eq_ok.1 h
      exact ⟨⟨b, hb⟩, bs', hbs⟩
    · rintro ⟨⟨b, hb⟩, bs', hbs⟩
      exact ⟨b :: bs', mapM_cons_eq_ok.2 ⟨b, bs', hb, hbs, rfl⟩⟩

theorem mapM_congr {m : Type → Type} [Monad m] [LawfulMonad m] {f g : α → m β} {l : List α}
    (h : ∀ a ∈ l, f a = g a) : l.mapM f = l.mapM g := by
  induction l with
  | nil => rfl
  | cons a l ih =>
    obtain ⟨ha, hl⟩ := List.forall_mem_cons.1 h
    rw [List.mapM_cons, List.mapM_cons, ha, ih hl]

theorem mapM_of_mapM {f : α → Except Error β} {g : β → Except Error γ}
    {k : α → Except Error γ} (h : ∀ a b, f a = .ok b → g b = k a) {l : List α} {bs : List β}
    (hl : l.mapM f = .ok bs) : bs.mapM g = l.mapM k := by
  induction l generalizing bs with
  | nil =>
    obtain rfl : [] = bs := Except.ok.inj hl
    rfl
  | cons a l ih =>
    obtain ⟨b, bs', hb, hbs, rfl⟩ := mapM_cons_eq_ok.1 hl
    rw [List.mapM_cons, List.mapM_cons, h a b hb, ih hbs]

theorem exists_ok_of_unit_eq {x : Except Error α} {y : Except Error β} {b : β}
    (h : (fun _ ↦ ()) <$> x = (fun _ ↦ ()) <$> y) (hy : y = .ok b) : ∃ a, x = .ok a := by
  rw [hy] at h
  obtain ⟨a, ha, -⟩ := map_eq_ok.1 h
  exact ⟨a, ha⟩

theorem unit_mapM_flatMap {f : β → Except Error γ} {g : α → Except Error δ}
    {parts : α → List β}
    (h : ∀ a, (fun _ ↦ ()) <$> (parts a).mapM f = (fun _ ↦ ()) <$> g a) (l : List α) :
    (fun _ ↦ ()) <$> (l.flatMap parts).mapM f = (fun _ ↦ ()) <$> l.mapM g := by
  induction l with
  | nil => rfl
  | cons a l ih =>
    have ha := h a
    rw [List.flatMap_cons, List.mapM_append, List.mapM_cons]
    cases hp : (parts a).mapM f <;> cases hg : g a <;>
      cases hl : (l.flatMap parts).mapM f <;> cases hm : l.mapM g <;>
      simp_all [Functor.map, Except.map, bind, Except.bind, pure, Except.pure]

end TildeMerge
