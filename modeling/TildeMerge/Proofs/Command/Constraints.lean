import TildeMerge.Proofs.Command.Items
import TildeMerge.Proofs.Command.Phases
import TildeMerge.Proofs.Failures

namespace TildeMerge.Command

variable {a : Args} {g g' : Given} {item : Item} {items : List Item} {argv : List Text}

/-- The arguments do not contradict each other, and no path is empty. -/
structure Args.Consistent (a : Args) : Prop where
  one_source : a.data.isSome = !a.stdin
  one_mode : ¬ (a.append = true ∧ a.noClobber = true)
  default_missing : a.strict = true → a.missing = .undefined
  template_ne : a.template ≠ []
  data_ne : a.data ≠ some []

namespace Given

def Named (g : Given) : Prop :=
  g.template ≠ some [] ∧ g.data ≠ some []

theorem setFlag_keeps {f : Flag} (h : g.setFlag f = .ok g') :
    g'.template = g.template ∧ g'.data = g.data ∧ g'.missing = g.missing := by
  cases f with
  | help | version => cases h
  | _ =>
    simp only [setFlag] at h
    split at h
    · cases h
    · obtain rfl := Except.ok.inj h
      exact ⟨rfl, rfl, rfl⟩

theorem setValue_missing {name : Text} (h : g.setValue name .missing = .ok g') :
    ∃ p, g.missing = none ∧ policyNames.lookup name = some p ∧ g' = { g with missing := some p } := by
  simp only [setValue] at h
  split at h
  · cases h
  · rename_i hnone
    split at h
    · rename_i p hp
      exact ⟨p, Option.not_isSome_iff_eq_none.1 hnone, hp, (Except.ok.inj h).symm⟩
    · cases h

theorem setValue_keeps {s : Setting} {value : Text} (h : g.setValue value s = .ok g') :
    g'.template = g.template ∧ g'.data = g.data ∧ ∀ p, g.missing = some p → g'.missing = some p := by
  cases s with
  | output =>
    simp only [setValue] at h
    split at h
    · cases h
    · obtain rfl := Except.ok.inj h
      exact ⟨rfl, rfl, fun p hp ↦ hp⟩
  | missing =>
    obtain ⟨p, hnone, -, rfl⟩ := setValue_missing h
    refine ⟨rfl, rfl, fun p' hp' ↦ ?_⟩
    rw [hnone] at hp'
    cases hp'
  | encoding =>
    simp only [setValue] at h
    split at h
    · cases h
    · split at h
      · obtain rfl := Except.ok.inj h
        exact ⟨rfl, rfl, fun p hp ↦ hp⟩
      · cases h

theorem addPath_cases {path : Text} (h : g.addPath path = .ok g') :
    path ≠ [] ∧ (g' = { g with template := some path } ∨ g' = { g with data := some path }) := by
  simp only [addPath] at h
  split at h
  · cases h
  · rename_i hne
    refine ⟨by simpa using hne, ?_⟩
    split at h
    · exact .inl (Except.ok.inj h).symm
    · exact .inr (Except.ok.inj h).symm

end Given

theorem Item.named_of_apply (hg : g.Named) (h : item.apply g = .ok g') : g'.Named := by
  cases item with
  | flag f =>
    obtain ⟨htemplate, hdata, -⟩ := Given.setFlag_keeps h
    rwa [Given.Named, htemplate, hdata]
  | setting s value =>
    obtain ⟨htemplate, hdata, -⟩ := Given.setValue_keeps h
    rwa [Given.Named, htemplate, hdata]
  | path path =>
    obtain ⟨hne, rfl | rfl⟩ := Given.addPath_cases h
    · exact ⟨by simpa using hne, hg.2⟩
    · exact ⟨hg.1, by simpa using hne⟩

theorem Item.missing_of_apply {p : GapPolicy} (hg : g.missing = some p)
    (h : item.apply g = .ok g') : g'.missing = some p := by
  cases item with
  | flag f =>
    rw [(Given.setFlag_keeps h).2.2]
    exact hg
  | setting s value => exact (Given.setValue_keeps h).2.2 p hg
  | path path =>
    obtain ⟨-, rfl | rfl⟩ := Given.addPath_cases h
    · exact hg
    · exact hg

theorem Takes.named (h : Takes {} items g) : g.Named :=
  h.preserves (fun _ _ _ ↦ Item.named_of_apply) ⟨nofun, nofun⟩

def Given.args (g : Given) (template : Text) : Args where
  template
  data := g.data
  output := g.output
  stdin := g.stdin
  missing := g.missing.getD .undefined
  strict := g.strict
  encoding := g.encoding.getD .utf8
  append := g.append
  noClobber := g.noClobber
  check := g.check
  verbose := g.verbose

theorem Given.finish_eq_ok : g.finish = .ok a ↔
    ∃ template, g.hasConflict = false ∧ g.template = some template ∧
      (g.data.isNone && !g.stdin) = false ∧ g.args template = a := by
  rw [Given.finish]
  cases g.hasConflict with
  | true => simp
  | false =>
    cases g.template with
    | none => simp
    | some template => cases g.data.isNone && !g.stdin <;> simp [Given.args]

theorem Given.consistent_of_finish (hg : g.Named) (h : g.finish = .ok a) : a.Consistent := by
  obtain ⟨template, hconflict, htemplate, hsource, rfl⟩ := Given.finish_eq_ok.1 h
  simp only [Given.hasConflict, Bool.or_eq_false_iff, Bool.and_eq_false_iff] at hconflict
  obtain ⟨⟨hdata, hstrict⟩, hmode⟩ := hconflict
  constructor
  case one_source =>
    change g.data.isSome = !g.stdin
    cases hstdin : g.stdin <;> cases hsome : g.data <;> simp_all
  case one_mode =>
    rintro ⟨happend, hclobber⟩
    rcases hmode with hmode | hmode
    · exact Bool.false_ne_true (hmode.symm.trans happend)
    · exact Bool.false_ne_true (hmode.symm.trans hclobber)
  case default_missing =>
    intro hset
    rcases hstrict with hstrict | hstrict
    · exact absurd (hstrict.symm.trans hset) Bool.false_ne_true
    · rw [Given.args, Option.not_isSome_iff_eq_none.1 (Bool.eq_false_iff.1 hstrict)]
      rfl
  case template_ne =>
    intro hnil
    exact hg.1 (htemplate.trans (congrArg some hnil))
  case data_ne => exact hg.2

theorem consistent_of_parse (h : parse argv = .ok a) : a.Consistent := by
  obtain ⟨items, g, hitems, hfinish⟩ := exists_items_of_parse h
  exact Given.consistent_of_finish hitems.named hfinish

/-- The arguments give the policy of this name, in one argument or in two. Behind two hyphens alone, both
would be paths. -/
inductive GivesPolicy (name : Text) : List Text → Prop
  | attached (before after : List Text) (h : ['-', '-'] ∉ before) :
      GivesPolicy name (before ++ assigned "missing".toList name :: after)
  | apart (before after : List Text) (h : ['-', '-'] ∉ before) :
      GivesPolicy name (before ++ bare "missing".toList :: name :: after)

section GivesPolicy

variable {r r' : Reading} {name : Text} {after : List Text}

theorem lookup_missing : longNames.lookup "missing".toList = some (.setting .missing) := by decide

theorem missing_of_takes {p : GapPolicy} (h : Takes g items g') (hg : g.missing = some p) :
    g'.missing = some p :=
  h.preserves (fun _ _ _ ↦ Item.missing_of_apply) hg

theorem missing_of_attached (honly : r.onlyPaths = false)
    (h : Reads r (assigned "missing".toList name :: after) r')
    (hsettle : r'.pending.settle r'.given = .ok g) :
    ∃ p, policyNames.lookup name = some p ∧ g.missing = some p := by
  obtain ⟨r₁, hstep, hafter⟩ := reads_cons.1 h
  rw [Reading.step_assigned honly lookup_missing] at hstep
  obtain ⟨r₂, -, hstep⟩ := bind_eq_ok.1 hstep
  obtain ⟨g₁, hvalue, hstep⟩ := bind_eq_ok.1 hstep
  obtain rfl := Except.ok.inj hstep
  obtain ⟨p, -, hp, rfl⟩ := Given.setValue_missing hvalue
  obtain ⟨items, hitems⟩ := hafter.exists_items
  obtain ⟨last, hlast⟩ := exists_items_of_settle hsettle
  exact ⟨p, hp, missing_of_takes (takes_append.2 ⟨_, hitems, hlast⟩) rfl⟩

theorem missing_of_apart (honly : r.onlyPaths = false)
    (h : Reads r (bare "missing".toList :: name :: after) r')
    (hsettle : r'.pending.settle r'.given = .ok g) :
    ∃ p, policyNames.lookup name = some p ∧ g.missing = some p := by
  obtain ⟨r₁, hstep, hreads⟩ := reads_cons.1 h
  rw [Reading.step_await honly lookup_missing] at hstep
  obtain ⟨-, hawaits⟩ := Reading.await_eq_ok hstep
  obtain ⟨r₂, hvalue, hafter⟩ := reads_cons.1 hreads
  obtain ⟨-, rfl⟩ | ⟨s, hs, rfl⟩ | hsettles := Reading.step_cases hvalue
  · -- What follows is a path, and a path is not the value that is awaited.
    cases after with
    | nil =>
      obtain rfl := Except.ok.inj hafter
      rw [hawaits] at hsettle
      cases hsettle
    | cons arg after =>
      obtain ⟨r₃, hpath, -⟩ := reads_cons.1 hafter
      exact absurd hawaits (Reading.step_of_onlyPaths rfl hpath).not_awaiting
  · obtain rfl := Pending.awaiting.inj (hawaits.symm.trans hs)
    obtain ⟨g₁, items, hg₁, hitems⟩ := hafter.settles_first (fun s ↦ nofun) hsettle
    obtain ⟨p, -, hp, rfl⟩ := Given.setValue_missing hg₁
    exact ⟨p, hp, missing_of_takes hitems rfl⟩
  · exact absurd hawaits hsettles.not_awaiting

theorem missing_of_givesPolicy (h : GivesPolicy name argv) (hreads : Reads {} argv r)
    (hsettle : r.pending.settle r.given = .ok g) :
    ∃ p, policyNames.lookup name = some p ∧ g.missing = some p := by
  cases h with
  | attached before after hbefore =>
    obtain ⟨r₁, hr₁, hrest⟩ := reads_append.1 hreads
    exact missing_of_attached (onlyPaths_of_reads hr₁ hbefore) hrest hsettle
  | apart before after hbefore =>
    obtain ⟨r₁, hr₁, hrest⟩ := reads_append.1 hreads
    exact missing_of_apart (onlyPaths_of_reads hr₁ hbefore) hrest hsettle

theorem missing_of_parse (h : parse argv = .ok a) (hname : GivesPolicy name argv) :
    policyNames.lookup name = some a.missing ∧ a.options.missing = a.missing := by
  obtain ⟨r, g, hreads, hsettle, hfinish⟩ := parse_eq_ok.1 h
  obtain ⟨p, hp, hmissing⟩ := missing_of_givesPolicy hname hreads hsettle
  obtain ⟨template, hconflict, -, -, rfl⟩ := Given.finish_eq_ok.1 hfinish
  have hstrict : g.strict = false := by
    simp only [Given.hasConflict, hmissing, Option.isSome_some, Bool.and_true,
      Bool.or_eq_false_iff] at hconflict
    exact hconflict.1.2
  constructor
  · rw [hp, Given.args, hmissing]
    rfl
  · simp [Args.options, Given.args, hstrict]

end GivesPolicy

section Run

variable {input : Bytes} {fs : FileSystem}

theorem ne_noRecord_of_stopsRender {e : Error} (h : e.StopsRender) : e ≠ .noRecord := by
  rintro rfl
  exact h

theorem failsOnly_parse (t : Text) : FailsOnly (· ≠ .noRecord) (Record.parse t) := by
  unfold Record.parse
  cases Record.readValue t with
  | none => exact .error nofun
  | some v =>
    dsimp only
    split
    · exact .ok v
    · exact .error nofun

theorem failsOnly_ofStream (bytes : Bytes) : FailsOnly (· ≠ .noRecord) (Record.ofStream bytes) := by
  unfold Record.ofStream
  cases Utf8.decode? bytes with
  | none => exact .error nofun
  | some t => exact failsOnly_parse t.trim

theorem failsOnly_ofFile (bytes : Bytes) : FailsOnly (· ≠ .noRecord) (Record.ofFile bytes) := by
  unfold Record.ofFile
  cases Utf8.decode? bytes with
  | none => exact .error nofun
  | some t => exact failsOnly_parse t

theorem failsOnly_record (h : a.data.isSome = !a.stdin) (read : FileReader) :
    FailsOnly (· ≠ .noRecord) (record a input read).result := by
  unfold record
  cases hstdin : a.stdin with
  | true => exact failsOnly_ofStream input
  | false =>
    rw [hstdin] at h
    obtain ⟨path, hpath⟩ := Option.isSome_iff_exists.1 h
    rw [if_neg Bool.false_ne_true, hpath]
    simp only [loadRecord, Logged.bind_result, Logged.tell_result]
    refine (FailsOnly.ok ()).bind fun _ ↦ ?_
    cases read path with
    | ok bytes => exact failsOnly_ofFile bytes
    | error e => exact .error nofun

theorem failsOnly_loadTemplate (read : FileReader) (path : Text) :
    FailsOnly (· ≠ .noRecord) (loadTemplate read path).result := by
  simp only [loadTemplate, Logged.bind_result, Logged.tell_result]
  refine (FailsOnly.ok ()).bind fun _ ↦ ?_
  cases read path with
  | ok bytes => exact .ok _
  | error e => exact .error nofun

theorem failsOnly_prepare (h : a.data.isSome = !a.stdin) (read : FileReader) :
    FailsOnly (· ≠ .noRecord) (prepare a input read) := by
  refine (failsOnly_record h read).bind fun value ↦ ?_
  refine (failsOnly_loadTemplate read a.template).bind fun template ↦ ?_
  refine .bind ?_ fun text ↦ .ok _
  exact (failsOnly_render a.options value template).mono fun _ ↦ ne_noRecord_of_stopsRender

theorem failsOnly_destination (a : Args) (value : Value) :
    FailsOnly (· ≠ .noRecord) (destination a value) := by
  unfold destination
  cases a.output with
  | none => exact .ok none
  | some output =>
    refine .map _ ?_
    exact (failsOnly_renderPath a.options value output).mono fun _ ↦ ne_noRecord_of_stopsRender

theorem failsOnly_storeOutcome (path : Text) (size : Nat) (mode : WriteMode)
    (stored : Except IoError Unit) :
    FailsOnly (· ≠ .noRecord) (storeOutcome path size mode stored).result := by
  simp only [storeOutcome, Logged.bind_result, Logged.tell_result]
  refine (FailsOnly.ok ()).bind fun _ ↦ ?_
  split
  · exact .ok ()
  · exact .error nofun
  · exact .error nofun

theorem failsOnly_writeFile (path : Text) (bytes : Bytes) (mode : WriteMode) :
    FailsOnly (· ≠ .noRecord) (fs.writeFile path bytes mode).2.result := by
  rw [FileSystem.writeFile_eq]
  split
  · exact .error nofun
  · split
    · exact failsOnly_storeOutcome path bytes.length mode _
    · exact failsOnly_storeOutcome path bytes.length mode _

theorem failsOnly_deliver (a : Args) (text : Text) (target : Option Text) :
    FailsOnly (· ≠ .noRecord) (deliver a fs text target).result := by
  cases target with
  | none => exact .ok ()
  | some target => exact failsOnly_writeFile target _ a.writeMode

theorem failsOnly_run (h : a.data.isSome = !a.stdin) :
    FailsOnly (· ≠ .noRecord) (run a input fs).1.result := by
  cases hprepare : prepare a input fs.read with
  | error e =>
    rw [(ends_of_prepare_error hprepare).result_eq]
    exact .error (failsOnly_prepare h fs.read e hprepare)
  | ok prepared =>
    obtain ⟨value, text⟩ := prepared
    cases hdestination : destination a value with
    | error e =>
      rw [(ends_of_destination_error hprepare hdestination).result_eq]
      exact .error (failsOnly_destination a value e hdestination)
    | ok target =>
      rw [(ends_of_destination hprepare hdestination).result_eq]
      exact (failsOnly_deliver a text target).map _

end Run

theorem Args.Consistent.writeMode_iff (h : a.Consistent) :
    (a.writeMode = .append ↔ a.append = true) ∧ (a.writeMode = .createNew ↔ a.noClobber = true) := by
  have hmode := h.one_mode
  unfold Args.writeMode
  cases happend : a.append <;> cases hclobber : a.noClobber <;> simp_all

/-- The arguments of every command line that is accepted do not contradict each other. A run with them has
a source for its record, at most one of the flags for the output, and the policy for gaps that was given. -/
theorem parse_constraints (h : parse argv = .ok a) :
    a.Consistent ∧
      (∀ (input : Bytes) (fs : FileSystem), (run a input fs).1.result ≠ .error .noRecord) ∧
      ((a.writeMode = .append ↔ a.append = true) ∧ (a.writeMode = .createNew ↔ a.noClobber = true)) ∧
      ∀ name, GivesPolicy name argv →
        policyNames.lookup name = some a.missing ∧ a.options.missing = a.missing := by
  have hconsistent := consistent_of_parse h
  refine ⟨hconsistent, fun input fs hfail ↦ ?_, hconsistent.writeMode_iff, fun name hname ↦ ?_⟩
  · exact failsOnly_run hconsistent.one_source _ hfail rfl
  · exact missing_of_parse h hname

def mixedArguments : List Text :=
  ["-vo".toList, "out".toList, "t".toList, "--missing=empty".toList, "--append".toList, "--".toList,
    "-d".toList]

theorem parse_constraints_mixedArguments :
    ∃ a, parse mixedArguments = .ok a ∧ a.Consistent ∧ a.data = some "-d".toList ∧
      a.writeMode = .append ∧ a.options.missing = .empty := by
  have hparse : parse mixedArguments = .ok
      { streamArgs with
        data := some "-d".toList, output := some "out".toList, stdin := false, missing := .empty,
        append := true, verbose := true } := by
    decide
  have hname : GivesPolicy "empty".toList mixedArguments := by
    have hbefore : ['-', '-'] ∉ ["-vo".toList, "out".toList, "t".toList] := by decide
    exact .attached _ ["--append".toList, "--".toList, "-d".toList] hbefore
  obtain ⟨hconsistent, -, ⟨happend, -⟩, hpolicy⟩ := parse_constraints hparse
  exact ⟨_, hparse, hconsistent, rfl, happend.2 rfl, (hpolicy _ hname).2⟩

end TildeMerge.Command
