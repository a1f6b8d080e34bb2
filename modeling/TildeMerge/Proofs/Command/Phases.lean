import TildeMerge.Command.Run
import TildeMerge.Proofs.Results

namespace TildeMerge.Command

open Markup

variable {a : Args} {input : Bytes} {fs : FileSystem} {e : Error} {value : Value} {text : Text}

theorem run_of_error (h : (produce a input fs.read).result = .error e) :
    run a input fs = (.unwritten (produce a input fs.read), fs) := by
  rw [run, conclude, h]
  rfl

theorem run_of_stream {p : Product} (h : (produce a input fs.read).result = .ok p)
    (ht : p.target = none) : run a input fs = (.unwritten (produce a input fs.read), fs) := by
  obtain ⟨bytes, target, leftovers⟩ := p
  subst ht
  rw [run, conclude, h]
  rfl

theorem run_of_file {p : Product} {target : Text} (h : (produce a input fs.read).result = .ok p)
    (ht : p.target = some target) :
    run a input fs =
      (.written (produce a input fs.read).log p (fs.writeFile target p.bytes a.writeMode).2,
        (fs.writeFile target p.bytes a.writeMode).1) := by
  obtain ⟨bytes, target', leftovers⟩ := p
  subst ht
  rw [run, conclude, h]
  rfl

def prepare (a : Args) (input : Bytes) (read : FileReader) : Except Error (Value × Text) := do
  let value ← (record a input read).result
  let template ← (loadTemplate read a.template).result
  let text ← ((engine a).render template value).result
  return (value, text)

def destination (a : Args) (value : Value) : Except Error (Option Text) :=
  match a.output with
  | some output => some <$> ((engine a).renderPath output value).result
  | none => .ok none

def product (a : Args) (text : Text) (target : Option Text) : Product :=
  ⟨a.encoding.encode text, target, (checkedLeftovers a text).length⟩

theorem reportLeftovers_result (ls : List Leftover) : (reportLeftovers ls).result = .ok () := by
  induction ls with
  | nil => rfl
  | cons l ls ih =>
    rw [reportLeftovers, Logged.bind_result, Logged.tell_result]
    exact ih

theorem produce_result (a : Args) (input : Bytes) (read : FileReader) :
    (produce a input read).result =
      prepare a input read >>= fun p ↦ product a p.2 <$> destination a p.1 := by
  simp only [produce, prepare, Logged.bind_result, reportLeftovers_result, bind_assoc, pure_bind]
  refine bind_congr fun value ↦ bind_congr fun template ↦ bind_congr fun text ↦ ?_
  unfold destination
  cases a.output with
  | none => rfl
  | some output =>
    simp only [Logged.bind_result, Logged.map_result]
    cases ((engine a).renderPath output value).result <;> rfl

/-- A run ends with a result, with what was sent to the stream, and with the files as they are left. -/
structure Ends (run : Report × FileSystem) (result : Except Error Outcome) (printed : Bytes)
    (files : FileSystem) : Prop where
  result_eq : run.1.result = result
  printed_eq : run.1.printed = printed
  files_eq : run.2 = files

theorem produce_of_prepare (h : prepare a input fs.read = .ok (value, text)) :
    (produce a input fs.read).result = product a text <$> destination a value := by
  rw [produce_result, h]
  rfl

theorem ends_of_produce_error (h : (produce a input fs.read).result = .error e) :
    Ends (run a input fs) (.error e) [] fs := by
  rw [run_of_error h]
  refine ⟨?_, ?_, rfl⟩
  · rw [Report.unwritten, h]
    rfl
  · rw [Report.unwritten, h]

theorem ends_of_prepare_error (h : prepare a input fs.read = .error e) :
    Ends (run a input fs) (.error e) [] fs := by
  apply ends_of_produce_error
  rw [produce_result, h]
  rfl

theorem ends_of_destination_error (h : prepare a input fs.read = .ok (value, text))
    (hd : destination a value = .error e) : Ends (run a input fs) (.error e) [] fs := by
  apply ends_of_produce_error
  rw [produce_of_prepare h, hd]
  rfl

structure Delivery where
  result : Except Error Unit
  printed : Bytes
  files : FileSystem

def deliver (a : Args) (fs : FileSystem) (text : Text) : Option Text → Delivery
  | none => ⟨.ok (), a.encoding.encode text, fs⟩
  | some target =>
    let write := fs.writeFile target (a.encoding.encode text) a.writeMode
    ⟨write.2.result, [], write.1⟩

theorem ends_of_destination {target : Option Text}
    (h : prepare a input fs.read = .ok (value, text)) (hd : destination a value = .ok target) :
    Ends (run a input fs)
      ((deliver a fs text target).result.map fun _ ↦ ⟨target, (checkedLeftovers a text).length⟩)
      (deliver a fs text target).printed (deliver a fs text target).files := by
  have hp : (produce a input fs.read).result = .ok (product a text target) := by
    rw [produce_of_prepare h, hd]
    rfl
  cases target with
  | none =>
    rw [run_of_stream hp rfl]
    refine ⟨?_, ?_, rfl⟩
    · rw [Report.unwritten, hp]
      rfl
    · rw [Report.unwritten, hp]
      rfl
  | some target =>
    rw [run_of_file hp rfl]
    exact ⟨rfl, rfl, rfl⟩

theorem exists_of_run_eq_ok {outcome : Outcome} (h : (run a input fs).1.result = .ok outcome) :
    ∃ value text, prepare a input fs.read = .ok (value, text) ∧
      destination a value = .ok outcome.target ∧
      outcome.leftovers = (checkedLeftovers a text).length ∧
      Ends (run a input fs) (.ok outcome) (deliver a fs text outcome.target).printed
        (deliver a fs text outcome.target).files := by
  cases hp : prepare a input fs.read with
  | error e =>
    rw [(ends_of_prepare_error hp).result_eq] at h
    cases h
  | ok p =>
    obtain ⟨value, text⟩ := p
    cases hd : destination a value with
    | error e =>
      rw [(ends_of_destination_error hp hd).result_eq] at h
      cases h
    | ok target =>
      have hends := ends_of_destination hp hd
      rw [hends.result_eq] at h
      obtain ⟨-, -, rfl⟩ := map_eq_ok.1 h
      exact ⟨value, text, rfl, hd, rfl, h ▸ hends⟩

/-- The arguments `t --stdin`. -/
def streamArgs : Args where
  template := ['t']
  data := none
  output := none
  stdin := true
  missing := .undefined
  strict := false
  encoding := .utf8
  append := false
  noClobber := false
  check := false
  verbose := false

/-- A file `t` with the template `~x`, and no other one. -/
def onlyTemplate : FileSystem where
  entries := [([['t']], .file [126, 120])]
  workingDirectory := []

end TildeMerge.Command
