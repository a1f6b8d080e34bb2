import TildeMerge.Command.Exit
import TildeMerge.Proofs.Command.Phases
import TildeMerge.Proofs.Files.Writing

namespace TildeMerge

namespace Command

variable {a : Args} {input : Bytes} {fs : FileSystem} {e : Error}

/-- The path that a run writes to is its output, rendered for its record. -/
def WritesTo (a : Args) (input : Bytes) (fs : FileSystem) (target : Text) : Prop :=
  ∃ output value, a.output = some output ∧ (record a input fs.read).result = .ok value ∧
    ((engine a).renderPath output value).result = .ok target

theorem writesTo_of_produce {p : Product} {target : Text}
    (h : (produce a input fs.read).result = .ok p) (ht : p.target = some target) :
    WritesTo a input fs target := by
  simp only [produce, Logged.bind_result] at h
  obtain ⟨value, hvalue, h⟩ := bind_eq_ok.1 h
  obtain ⟨template, -, h⟩ := bind_eq_ok.1 h
  obtain ⟨text, -, h⟩ := bind_eq_ok.1 h
  obtain ⟨-, -, h⟩ := bind_eq_ok.1 h
  cases ho : a.output with
  | none =>
    rw [ho] at h
    obtain rfl := Except.ok.inj h
    cases ht
  | some output =>
    simp only [ho, Logged.bind_result, Logged.map_result] at h
    obtain ⟨target', htarget, h⟩ := bind_eq_ok.1 h
    obtain ⟨path, hpath, rfl⟩ := map_eq_ok.1 htarget
    obtain rfl := Except.ok.inj h
    obtain rfl : path = target := Option.some.inj ht
    exact ⟨output, value, ho, hvalue, hpath⟩

/-- A run that fails either has not come to the writing, or has made no more than directories above
the path that it writes to. -/
theorem run_failed_cases (h : (run a input fs).1.result = .error e) :
    (run a input fs).1.printed = [] ∧ ((run a input fs).2 = fs ∨
      ∃ target, WritesTo a input fs target ∧ (run a input fs).2 = (fs.makeParent target).1) := by
  cases hp : (produce a input fs.read).result with
  | error e' =>
    rw [run_of_error hp]
    exact ⟨by rw [Report.unwritten, hp], .inl rfl⟩
  | ok p =>
    cases ht : p.target with
    | none =>
      rw [run_of_stream hp ht, Report.unwritten, hp] at h
      cases h
    | some target =>
      rw [run_of_file hp ht] at h ⊢
      obtain hwrite | ⟨_, hwrite⟩ : (∃ e', (fs.writeFile target p.bytes a.writeMode).2.result =
          .error e') ∨ ∃ u, (fs.writeFile target p.bytes a.writeMode).2.result = .ok u := by
        cases (fs.writeFile target p.bytes a.writeMode).2.result <;> simp
      · obtain ⟨e', he'⟩ := hwrite
        exact ⟨rfl, .inr ⟨target, writesTo_of_produce hp ht, FileSystem.writeFile_of_error he'⟩⟩
      · rw [Report.written, hwrite] at h
        cases h

/-- A run that fails sends nothing to the stream. Every file is as it was and no file is new; what is
new is directories above the path that the output names. The program ends with code 1 and shows
nothing on its standard output. -/
theorem run_failed (h : (run a input fs).1.result = .error e) :
    (run a input fs).1.printed = [] ∧
    (∀ loc bytes, FileSystem.entry? (run a input fs).2 loc = some (.file bytes) ↔
      fs.entry? loc = some (.file bytes)) ∧
    (∀ loc, FileSystem.entry? (run a input fs).2 loc = fs.entry? loc ∨
      fs.entry? loc = none ∧ FileSystem.entry? (run a input fs).2 loc = some .directory ∧
        ∃ target, WritesTo a input fs target ∧ (run a input fs).2.IsParent target loc) ∧
    ∀ argv, parse argv = .ok a →
      (execute argv input fs).2 = (run a input fs).2 ∧ (execute argv input fs).1.code = 1 ∧
        (execute argv input fs).1.stdout = .bytes [] := by
  obtain ⟨hprinted, hfs⟩ := run_failed_cases h
  have hentry (loc : Location) : FileSystem.entry? (run a input fs).2 loc = fs.entry? loc ∨
      fs.entry? loc = none ∧ FileSystem.entry? (run a input fs).2 loc = some .directory ∧
        ∃ target, WritesTo a input fs target ∧ (run a input fs).2.IsParent target loc := by
    rcases hfs with hsame | ⟨target, htarget, hmade⟩
    · exact .inl (by rw [hsame])
    · rw [hmade]
      rcases fs.makeParent_entry? target loc with hsame | ⟨hnone, hdir, hparent⟩
      · exact .inl hsame
      · exact .inr ⟨hnone, hdir, target, htarget, hparent⟩
  refine ⟨hprinted, fun loc bytes ↦ ?_, hentry, fun argv hargv ↦ ?_⟩
  · rcases hentry loc with hsame | ⟨hnone, hdir, -⟩
    · rw [hsame]
    · simp [hnone, hdir]
  · simp only [execute, hargv, Report.exit, h, hprinted, and_self]

/-- A run whose output leads through a directory that is not there and back to one that is. -/
def outputIsDirectory : Args :=
  { streamArgs with output := some ['n', '/', '.', '.', '/', 'd'] }

def templateAndDirectory : FileSystem where
  entries := [([['t']], .file [97]), ([['d']], .directory)]
  workingDirectory := []

theorem run_failed_outputIsDirectory :
    (run outputIsDirectory [123, 125] templateAndDirectory).1.result = .error (.io .isADirectory) ∧
      (run outputIsDirectory [123, 125] templateAndDirectory).1.printed = [] ∧
      (run outputIsDirectory [123, 125] templateAndDirectory).2.entries =
        templateAndDirectory.entries ++ [([['n']], .directory)] ∧
      (execute ["t".toList, "--stdin".toList, "-o".toList, "n/../d".toList] [123, 125]
        templateAndDirectory).1.code = 1 := by
  have h : (run outputIsDirectory [123, 125] templateAndDirectory).1.result =
      .error (.io .isADirectory) := rfl
  have hargv : parse ["t".toList, "--stdin".toList, "-o".toList, "n/../d".toList] =
      .ok outputIsDirectory := by
    decide
  obtain ⟨hprinted, -, -, hexit⟩ := run_failed h
  exact ⟨h, hprinted, rfl, (hexit _ hargv).2.1⟩

end Command

end TildeMerge
