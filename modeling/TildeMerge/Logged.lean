import TildeMerge.Error
import TildeMerge.Log

namespace TildeMerge

/-- A finished computation: its log, and its value or the error that stopped it. -/
structure Logged (α : Type) where
  log : List LogEntry
  result : Except Error α
  deriving Repr

namespace Logged

variable {α β : Type}

protected def pure (a : α) : Logged α :=
  ⟨[], .ok a⟩

/-- The second computation runs, and logs behind the first, only if the first has a value. -/
protected def bind (x : Logged α) (f : α → Logged β) : Logged β :=
  match x.result with
  | .ok a => ⟨x.log ++ (f a).log, (f a).result⟩
  | .error e => ⟨x.log, .error e⟩

protected def map (f : α → β) (x : Logged α) : Logged β :=
  ⟨x.log, x.result.map f⟩

instance : Monad Logged where
  pure := Logged.pure
  bind := Logged.bind
  map := Logged.map

def fail (e : Error) : Logged α :=
  ⟨[], .error e⟩

def tell (e : LogEntry) : Logged Unit :=
  ⟨[e], .ok ()⟩

def ofExcept (r : Except Error α) : Logged α :=
  ⟨[], r⟩

def warnings (x : Logged α) : List LogEntry :=
  x.log.filter LogEntry.isWarning

@[simp] theorem pure_log (a : α) : (pure a : Logged α).log = [] := rfl

@[simp] theorem pure_result (a : α) : (pure a : Logged α).result = .ok a := rfl

@[simp] theorem fail_log (e : Error) : (fail e : Logged α).log = [] := rfl

@[simp] theorem fail_result (e : Error) : (fail e : Logged α).result = .error e := rfl

@[simp] theorem tell_log (e : LogEntry) : (tell e).log = [e] := rfl

@[simp] theorem tell_result (e : LogEntry) : (tell e).result = .ok () := rfl

theorem bind_eq_of_ok {x : Logged α} {a : α} (f : α → Logged β) (h : x.result = .ok a) :
    x >>= f = ⟨x.log ++ (f a).log, (f a).result⟩ := by
  simp [bind, Logged.bind, h]

theorem bind_eq_of_error {x : Logged α} {e : Error} (f : α → Logged β) (h : x.result = .error e) :
    x >>= f = ⟨x.log, .error e⟩ := by
  simp [bind, Logged.bind, h]

theorem bind_congr {x : Logged α} {f g : α → Logged β} (h : ∀ a, x.result = .ok a → f a = g a) :
    x >>= f = x >>= g := by
  cases hx : x.result with
  | error e => rw [bind_eq_of_error f hx, bind_eq_of_error g hx]
  | ok a => rw [bind_eq_of_ok f hx, bind_eq_of_ok g hx, h a hx]

@[simp] theorem bind_result (x : Logged α) (f : α → Logged β) :
    (x >>= f).result = x.result >>= fun a ↦ (f a).result := by
  cases h : x.result with
  | ok a => rw [bind_eq_of_ok f h]; rfl
  | error e => rw [bind_eq_of_error f h]; rfl

@[simp] theorem map_log (f : α → β) (x : Logged α) : (f <$> x).log = x.log := rfl

@[simp] theorem map_result (f : α → β) (x : Logged α) : (f <$> x).result = x.result.map f := rfl

instance : LawfulMonad Logged where
  map_const := rfl
  id_map x := by
    obtain ⟨log, r⟩ := x
    cases r <;> rfl
  seqLeft_eq x y := by
    obtain ⟨log, r⟩ := x
    cases r with
    | error e => rfl
    | ok a =>
      obtain ⟨log', r'⟩ := y
      cases r' <;> simp [SeqLeft.seqLeft, Seq.seq, Functor.map, Logged.bind, Logged.map,
        Logged.pure, Except.map]
  seqRight_eq x y := by
    obtain ⟨log, r⟩ := x
    cases r with
    | error e => rfl
    | ok a =>
      obtain ⟨log', r'⟩ := y
      cases r' <;> simp [SeqRight.seqRight, Seq.seq, Functor.map, Logged.bind, Logged.map,
        Except.map]
  pure_seq f x := by
    simp [Seq.seq, pure, Logged.pure, Logged.bind]
    rfl
  bind_pure_comp f x := by
    obtain ⟨log, r⟩ := x
    cases r <;> simp [bind, Logged.bind, pure, Logged.pure, Functor.map, Logged.map, Except.map]
  bind_map f x := rfl
  pure_bind a f := by
    simp [bind, Logged.bind, pure, Logged.pure]
  bind_assoc x f g := by
    obtain ⟨log, r⟩ := x
    cases r with
    | error e => simp [bind, Logged.bind]
    | ok a => cases h : (f a).result <;> simp [bind, Logged.bind, h]

end Logged

end TildeMerge
