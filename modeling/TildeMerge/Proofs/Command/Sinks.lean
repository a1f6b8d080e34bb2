import TildeMerge.Proofs.Command.Phases
import TildeMerge.Proofs.Files.Writing

namespace TildeMerge.Command

open Markup

def Args.toFile (a : Args) (output : Text) : Args :=
  { a with output := some output }

def Args.checking (a : Args) (check : Bool) : Args :=
  { a with check }

variable {a : Args} {input : Bytes} {fs : FileSystem} {e : Error} {value : Value} {text output : Text}
  {outcome outcome' : Outcome}

/-- What a run to a file does beside the one to the stream that has printed the bytes: the file at the
path of the output gets them, and no other file changes. -/
structure FilesPrinted (fs : FileSystem) (mode : WriteMode) (bytes : Bytes)
    (run : Report × FileSystem) (outcome : Outcome) : Prop where
  printed_nil : run.1.printed = []
  exists_file : ∃ target loc, outcome.target = some target ∧ run.2.Denotes target loc ∧
    run.2.read target = .ok (mode.content (fs.fileAt loc) bytes) ∧
    ∀ l, run.2.fileAt l =
      if l = loc then some (mode.content (fs.fileAt loc) bytes) else fs.fileAt l

theorem destination_stream (ho : a.output = none) (value : Value) :
    destination a value = .ok none := by
  rw [destination, ho]

theorem toFile_of_error (ho : a.output = none) (h : (run a input fs).1.result = .error e) :
    (run (a.toFile output) input fs).1.result = .error e := by
  cases hp : prepare a input fs.read with
  | error e' =>
    have hstream := ends_of_prepare_error hp
    have hfile : Ends (run (a.toFile output) input fs) (.error e') [] fs :=
      ends_of_prepare_error hp
    rw [hfile.result_eq, ← hstream.result_eq, h]
  | ok p =>
    have hstream := ends_of_destination hp (destination_stream ho p.1)
    rw [hstream.result_eq] at h
    cases h

theorem toFile_of_ok (ho : a.output = none) (h : (run a input fs).1.result = .ok outcome) :
    (run a input fs).2 = fs ∧
      ∀ outcome', (run (a.toFile output) input fs).1.result = .ok outcome' →
        outcome'.leftovers = outcome.leftovers ∧
        FilesPrinted fs a.writeMode (run a input fs).1.printed
          (run (a.toFile output) input fs) outcome' := by
  cases hp : prepare a input fs.read with
  | error e =>
    rw [(ends_of_prepare_error hp).result_eq] at h
    cases h
  | ok p =>
    obtain ⟨value, text⟩ := p
    have hstream := ends_of_destination hp (destination_stream ho value)
    rw [hstream.result_eq] at h
    obtain rfl := Except.ok.inj h
    rw [hstream.printed_eq]
    refine ⟨hstream.files_eq, fun outcome' h' ↦ ?_⟩
    have hp' : prepare (a.toFile output) input fs.read = .ok (value, text) := hp
    cases hpath : ((engine a).renderPath output value).result with
    | error e =>
      have hd : destination (a.toFile output) value = .error e := congrArg (some <$> ·) hpath
      rw [(ends_of_destination_error hp' hd).result_eq] at h'
      cases h'
    | ok target =>
      have hd : destination (a.toFile output) value = .ok (some target) :=
        congrArg (some <$> ·) hpath
      have hfile := ends_of_destination hp' hd
      rw [hfile.result_eq] at h'
      obtain ⟨u, hwritten, rfl⟩ := map_eq_ok.1 h'
      obtain ⟨loc, hplace, hread, hfiles⟩ := FileSystem.writeFile_of_ok hwritten
      refine ⟨rfl, hfile.printed_eq, target, loc, rfl, ?_⟩
      rw [hfile.files_eq]
      exact ⟨hplace, hread, hfiles⟩

/-- What the check changes in a run: only the leftovers, which it counts in the text that is rendered. -/
structure CheckObserves (a : Args) (input : Bytes) (fs : FileSystem)
    (plain checked : Report × FileSystem) : Prop where
  printed_eq : checked.1.printed = plain.1.printed
  files_eq : checked.2 = plain.2
  results : (∃ e, plain.1.result = .error e ∧ checked.1.result = .error e) ∨
    ∃ value text target, prepare a input fs.read = .ok (value, text) ∧
      plain.1.result = .ok ⟨target, 0⟩ ∧
      checked.1.result = .ok ⟨target, (leftovers text).length⟩

theorem checkObserves_of_error {plain checked : Report × FileSystem} {printed : Bytes}
    {files : FileSystem} (hplain : Ends plain (.error e) printed files)
    (hchecked : Ends checked (.error e) printed files) : CheckObserves a input fs plain checked where
  printed_eq := hchecked.printed_eq.trans hplain.printed_eq.symm
  files_eq := hchecked.files_eq.trans hplain.files_eq.symm
  results := .inl ⟨e, hplain.result_eq, hchecked.result_eq⟩

theorem checkObserves_of_ok {plain checked : Report × FileSystem} {printed : Bytes}
    {files : FileSystem} {target : Option Text} (h : prepare a input fs.read = .ok (value, text))
    (hplain : Ends plain (.ok ⟨target, 0⟩) printed files)
    (hchecked : Ends checked (.ok ⟨target, (leftovers text).length⟩) printed files) :
    CheckObserves a input fs plain checked where
  printed_eq := hchecked.printed_eq.trans hplain.printed_eq.symm
  files_eq := hchecked.files_eq.trans hplain.files_eq.symm
  results := .inr ⟨value, text, target, h, hplain.result_eq, hchecked.result_eq⟩

theorem checking_observes (a : Args) (input : Bytes) (fs : FileSystem) :
    CheckObserves a input fs (run (a.checking false) input fs) (run (a.checking true) input fs) := by
  -- No phase reads the flag, so both runs go through the same ones.
  cases hp : prepare a input fs.read with
  | error e =>
    have hends (check : Bool) : Ends (run (a.checking check) input fs) (.error e) [] fs :=
      ends_of_prepare_error hp
    exact checkObserves_of_error (hends false) (hends true)
  | ok p =>
    obtain ⟨value, text⟩ := p
    have hp' (check : Bool) : prepare (a.checking check) input fs.read = .ok (value, text) := hp
    cases hd : destination a value with
    | error e =>
      have hends (check : Bool) : Ends (run (a.checking check) input fs) (.error e) [] fs :=
        ends_of_destination_error (hp' check) hd
      exact checkObserves_of_error (hends false) (hends true)
    | ok target =>
      have hends (check : Bool) : Ends (run (a.checking check) input fs)
          ((deliver a fs text target).result.map
            fun _ ↦ ⟨target, (checkedLeftovers (a.checking check) text).length⟩)
          (deliver a fs text target).printed (deliver a fs text target).files :=
        ends_of_destination (hp' check) hd
      cases hdelivered : (deliver a fs text target).result with
      | error e =>
        rw [hdelivered] at hends
        exact checkObserves_of_error (hends false) (hends true)
      | ok u =>
        rw [hdelivered] at hends
        exact checkObserves_of_ok hp (hends false) (hends true)

/-- The text that a run sends to the stream is what the same run with an output writes to its file. A run
that fails without an output fails in the same way with one, and one that succeeds changes no file.
The check changes nothing but the leftovers of a run. -/
theorem run_sinks (a : Args) (output : Text) (input : Bytes) (fs : FileSystem) :
    (a.output = none →
      (∀ e, (run a input fs).1.result = .error e →
        (run (a.toFile output) input fs).1.result = .error e) ∧
      ∀ outcome, (run a input fs).1.result = .ok outcome →
        (run a input fs).2 = fs ∧
        ∀ outcome', (run (a.toFile output) input fs).1.result = .ok outcome' →
          outcome'.leftovers = outcome.leftovers ∧
          FilesPrinted fs a.writeMode (run a input fs).1.printed
            (run (a.toFile output) input fs) outcome') ∧
    CheckObserves a input fs (run (a.checking false) input fs)
      (run (a.checking true) input fs) :=
  ⟨fun ho ↦ ⟨fun _ h ↦ toFile_of_error ho h, fun _ h ↦ toFile_of_ok ho h⟩,
    checking_observes a input fs⟩

def addsPlaceholder : Args :=
  { streamArgs with append := true, check := true }

/-- The record that has `~y` for `x`. -/
def placeholderRecord : Bytes :=
  [123, 34, 120, 34, 58, 34, 126, 121, 34, 125]

theorem run_sinks_addsPlaceholder :
    (run addsPlaceholder placeholderRecord onlyTemplate).1.result = .ok ⟨none, 1⟩ ∧
      (run addsPlaceholder placeholderRecord onlyTemplate).2 = onlyTemplate ∧
      (run (addsPlaceholder.toFile ['t']) placeholderRecord onlyTemplate).1.result =
        .ok ⟨some ['t'], 1⟩ ∧
      (run (addsPlaceholder.toFile ['t']) placeholderRecord onlyTemplate).2.read ['t'] =
        .ok [126, 120, 126, 121] ∧
      FilesPrinted onlyTemplate .append [126, 121]
        (run (addsPlaceholder.toFile ['t']) placeholderRecord onlyTemplate) ⟨some ['t'], 1⟩ ∧
      CheckObserves addsPlaceholder placeholderRecord onlyTemplate
        (run (addsPlaceholder.checking false) placeholderRecord onlyTemplate)
        (run addsPlaceholder placeholderRecord onlyTemplate) := by
  have hstream : (run addsPlaceholder placeholderRecord onlyTemplate).1.result =
      .ok ⟨none, 1⟩ := rfl
  have hprinted : (run addsPlaceholder placeholderRecord onlyTemplate).1.printed =
      [126, 121] := rfl
  have hfile : (run (addsPlaceholder.toFile ['t']) placeholderRecord onlyTemplate).1.result =
      .ok ⟨some ['t'], 1⟩ := rfl
  obtain ⟨hsinks, hcheck⟩ := run_sinks addsPlaceholder ['t'] placeholderRecord onlyTemplate
  obtain ⟨hsame, hwritten⟩ := (hsinks rfl).2 _ hstream
  obtain ⟨-, hgets⟩ := hwritten _ hfile
  rw [hprinted] at hgets
  exact ⟨hstream, hsame, hfile, by decide +kernel, hgets, hcheck⟩

end TildeMerge.Command
