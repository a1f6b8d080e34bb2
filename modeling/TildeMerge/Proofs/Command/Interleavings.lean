import TildeMerge.Proofs.Command.Constraints
import Mathlib.Data.List.Forall2
import Mathlib.Data.List.Nodup

namespace TildeMerge.Command

def policyName : GapPolicy → Text
  | .undefined => "undefined".toList
  | .empty => "empty".toList
  | .strict => "strict".toList

def encodingName : Encoding → Text
  | .utf8 => "utf8".toList
  | .utf8Bom => "utf8-bom".toList
  | .utf16Little => "utf16le".toList
  | .utf16Big => "utf16be".toList

theorem lookup_policyName (p : GapPolicy) : policyNames.lookup (policyName p) = some p := by
  cases p <;> decide

theorem lookup_encodingName (e : Encoding) : encodingNames.lookup (encodingName e) = some e := by
  cases e <;> decide

namespace Args

def isSet (a : Args) : Flag → Bool
  | .stdin => a.stdin
  | .strict => a.strict
  | .append => a.append
  | .noClobber => a.noClobber
  | .check => a.check
  | .verbose => a.verbose
  | .help | .version => false

/-- The settings with their values. A policy for gaps cannot be given together with the flag that forbids
them. -/
def settings (a : Args) : List Item :=
  a.output.toList.map (Item.setting .output) ++
    ((if a.strict then [] else [.setting .missing (policyName a.missing)]) ++
      [.setting .encoding (encodingName a.encoding)])

def choices (a : Args) : List Item :=
  ([Flag.stdin, .strict, .append, .noClobber, .check, .verbose].filter a.isSet).map Item.flag ++
    a.settings

def paths (a : Args) : List Text :=
  a.template :: a.data.toList

end Args

variable {a : Args} {g g' : Given} {f : Flag} {s : Setting} {item : Item} {value arg path : Text}
  {paths : List Text} {taken options : List Item}

theorem flag_mem_choices : .flag f ∈ a.choices ↔ a.isSet f = true := by
  cases f <;> simp [Args.choices, Args.settings, Args.isSet]

theorem output_mem_choices : .setting .output value ∈ a.choices ↔ a.output = some value := by
  simp [Args.choices, Args.settings]

theorem missing_mem_choices :
    .setting .missing value ∈ a.choices ↔ a.strict = false ∧ value = policyName a.missing := by
  cases hstrict : a.strict <;> simp [Args.choices, Args.settings, hstrict]

theorem encoding_mem_choices :
    .setting .encoding value ∈ a.choices ↔ value = encodingName a.encoding := by
  simp [Args.choices, Args.settings]

theorem path_notMem_choices : .path path ∉ a.choices := by
  simp [Args.choices, Args.settings]

theorem nodup_choices (a : Args) : a.choices.Nodup := by
  refine List.nodup_append.2 ⟨?_, ?_, ?_⟩
  · refine List.Nodup.map (fun f f' h ↦ Item.flag.inj h) ?_
    exact List.Nodup.filter _ (by decide)
  · cases houtput : a.output <;> cases hstrict : a.strict <;>
      simp [Args.settings, houtput, hstrict]
  · intro x hx y hy hxy
    obtain ⟨f, -, rfl⟩ := List.mem_map.1 hx
    rw [← hxy] at hy
    simp [Args.settings] at hy

def Args.given (a : Args) (paths : List Text) (taken : List Item) : Given where
  template := paths[0]?
  data := paths[1]?
  output := a.output.filter fun value ↦ .setting .output value ∈ taken
  missing := if .setting .missing (policyName a.missing) ∈ taken then some a.missing else none
  encoding := if .setting .encoding (encodingName a.encoding) ∈ taken then some a.encoding else none
  stdin := .flag .stdin ∈ taken
  strict := .flag .strict ∈ taken
  append := .flag .append ∈ taken
  noClobber := .flag .noClobber ∈ taken
  check := .flag .check ∈ taken
  verbose := .flag .verbose ∈ taken

theorem given_congr (h : ∀ item, item ∈ taken ↔ item ∈ options) :
    a.given paths taken = a.given paths options := by
  simp only [Args.given, h]

theorem given_nil : a.given [] [] = {} := by
  simp [Args.given]

theorem setFlag_given (hset : a.isSet f = true) (hnew : .flag f ∉ taken) :
    (a.given paths taken).setFlag f = .ok (a.given paths (taken ++ [.flag f])) := by
  cases f with
  | help | version => cases hset
  | _ => simp [Given.setFlag, Args.given, hnew]

theorem setValue_given (hmem : .setting s value ∈ a.choices) (hnew : .setting s value ∉ taken) :
    (a.given paths taken).setValue value s = .ok (a.given paths (taken ++ [.setting s value])) := by
  cases s with
  | output =>
    have hvalue : a.output = some value := output_mem_choices.1 hmem
    simp [Given.setValue, Args.given, Option.filter, hvalue, hnew]
  | missing =>
    obtain ⟨-, rfl⟩ := missing_mem_choices.1 hmem
    simp [Given.setValue, Args.given, hnew, lookup_policyName]
  | encoding =>
    obtain rfl := encoding_mem_choices.1 hmem
    simp [Given.setValue, Args.given, hnew, lookup_encodingName]

theorem apply_given (hmem : item ∈ a.choices) (hnew : item ∉ taken) :
    item.apply (a.given paths taken) = .ok (a.given paths (taken ++ [item])) := by
  cases item with
  | path path => exact absurd hmem path_notMem_choices
  | flag f => exact setFlag_given (flag_mem_choices.1 hmem) hnew
  | setting s value => exact setValue_given hmem hnew

theorem addPath_given (hpath : path ≠ []) (hpaths : paths.length < 2) :
    (a.given paths taken).addPath path = .ok (a.given (paths ++ [path]) taken) := by
  have hne : path.isEmpty = false := by simpa using hpath
  cases paths with
  | nil => simp [Given.addPath, Args.given, hne]
  | cons first rest =>
    obtain rfl : rest = [] := by
      rw [List.length_cons] at hpaths
      exact List.eq_nil_of_length_eq_zero (by omega)
    simp [Given.addPath, Args.given, hne]

theorem given_choices (a : Args) :
    a.given a.paths a.choices =
      { template := some a.template
        data := a.data
        output := a.output
        missing := if a.strict then none else some a.missing
        encoding := some a.encoding
        stdin := a.stdin
        strict := a.strict
        append := a.append
        noClobber := a.noClobber
        check := a.check
        verbose := a.verbose } := by
  have hdata : a.paths[1]? = a.data := by
    cases hd : a.data <;> simp [Args.paths, hd]
  have houtput : (a.output.filter fun value ↦ decide (.setting .output value ∈ a.choices)) =
      a.output := by
    cases ho : a.output <;> simp [Option.filter, output_mem_choices, ho]
  simp only [Args.given, hdata, houtput, flag_mem_choices, missing_mem_choices,
    encoding_mem_choices, Args.isSet]
  cases a.strict <;> simp [Args.paths]

theorem finish_given (h : a.Consistent) : (a.given a.paths a.choices).finish = .ok a := by
  rw [given_choices, Given.finish_eq_ok]
  have hsource : (a.stdin && a.data.isSome) = false := by
    rw [h.one_source, Bool.and_not_self]
  have hmissing : (a.strict && (if a.strict then none else some a.missing).isSome) = false := by
    cases a.strict <;> rfl
  have hmode : (a.append && a.noClobber) = false := by
    rw [Bool.eq_false_iff]
    intro hboth
    exact h.one_mode (Bool.and_eq_true_iff.1 hboth)
  refine ⟨a.template, ?_, rfl, ?_, ?_⟩
  · simp only [Given.hasConflict, hsource, hmissing, hmode, Bool.or_self]
  · rw [← Option.not_isSome, h.one_source, Bool.not_not, Bool.and_not_self]
  · -- The policy is the default where none can be given.
    have hpolicy : (if a.strict then none else some a.missing).getD .undefined = a.missing := by
      cases hstrict : a.strict with
      | true => exact (h.default_missing hstrict).symm
      | false => rfl
    simp only [Given.args, hpolicy, Option.getD_some]

/-- Ways to write an option as one argument: a flag by its name or by its letter, and a setting by its name
with the value attached. -/
inductive Spells : Item → Text → Prop
  | name {name : Text} {f : Flag} (h : longNames.lookup name = some (.flag f)) :
      Spells (.flag f) (bare name)
  | letter {c : Char} {f : Flag} (h : shortNames.lookup c = some (.flag f)) :
      Spells (.flag f) ['-', c]
  | value {name : Text} {s : Setting} (h : longNames.lookup name = some (.setting s))
      (value : Text) : Spells (.setting s value) (assigned name value)

/-- The third list is made of the first two, each in its own order. -/
inductive Interleaving {α : Type} : List α → List α → List α → Prop
  | nil : Interleaving [] [] []
  | left {x : α} {xs ys zs : List α} (h : Interleaving xs ys zs) :
      Interleaving (x :: xs) ys (x :: zs)
  | right {y : α} {xs ys zs : List α} (h : Interleaving xs ys zs) :
      Interleaving xs (y :: ys) (y :: zs)

theorem Interleaving.append {α : Type} (xs ys : List α) : Interleaving xs ys (xs ++ ys) := by
  induction xs with
  | nil =>
    induction ys with
    | nil => exact .nil
    | cons y ys ih => exact ih.right
  | cons x xs ih => exact ih.left

/-- The arguments are the paths and, at any places and in any order, one argument for each choice. -/
def Args.WrittenAs (a : Args) (argv : List Text) : Prop :=
  ∃ options written, options.Perm a.choices ∧ List.Forall₂ Spells options written ∧
    Interleaving a.paths written argv

/-- What is pending settles to this, behind so many paths, and options are still options. -/
structure Reading.Stands (r : Reading) (g : Given) (n : Nat) : Prop where
  settle_eq : r.pending.settle r.given = .ok g
  paths_eq : r.paths = n
  onlyPaths_eq : r.onlyPaths = false

namespace Reading.Stands

variable {r : Reading} {n : Nat}

theorem settle (h : r.Stands g n) : r.settle = .ok { r with given := g, pending := .nothing } :=
  settle_eq_ok.2 ⟨g, h.settle_eq, rfl⟩

theorem exists_flag (h : r.Stands g n) (hflag : g.setFlag f = .ok g') :
    ∃ r', r.flag f = .ok r' ∧ r'.Stands g' n := by
  refine ⟨{ r with given := g', pending := .nothing }, ?_, ⟨rfl, h.paths_eq, h.onlyPaths_eq⟩⟩
  exact bind_eq_ok.2 ⟨_, h.settle, bind_eq_ok.2 ⟨g', hflag, rfl⟩⟩

theorem exists_attached (h : r.Stands g n) (hvalue : g.setValue value s = .ok g') :
    ∃ r', r.attached s value = .ok r' ∧ r'.Stands g' n := by
  refine ⟨{ r with given := g', pending := .nothing }, ?_, ⟨rfl, h.paths_eq, h.onlyPaths_eq⟩⟩
  exact bind_eq_ok.2 ⟨_, h.settle, bind_eq_ok.2 ⟨g', hvalue, rfl⟩⟩

theorem exists_path (h : r.Stands g n) (hn : n < 2) (hpath : g.addPath path = .ok g') :
    ∃ r', r.path path = .ok r' ∧ r'.Stands g' (n + 1) := by
  refine ⟨{ r with given := g, pending := .path path, paths := r.paths + 1 }, ?_,
    ⟨hpath, congrArg (· + 1) h.paths_eq, h.onlyPaths_eq⟩⟩
  rw [Reading.path, if_pos (h.paths_eq ▸ hn), h.settle]
  rfl

theorem step_path (h : r.Stands g n) (hpath : path.head? ≠ some '-') :
    r.step path = r.path path := by
  unfold Reading.step
  rw [h.onlyPaths_eq, if_neg Bool.false_ne_true]
  split
  · exact absurd rfl hpath
  · exact absurd rfl hpath
  · exact absurd rfl hpath
  · split
    · -- A value that is awaited does not settle.
      rename_i s hpending
      have hsettle := h.settle_eq
      rw [hpending] at hsettle
      cases hsettle
    · rfl

theorem step_letter {c : Char} (h : r.Stands g n) (hc : shortNames.lookup c = some (.flag f)) :
    r.step ['-', c] = r.flag f := by
  have hletters : shortNames.lookup '-' = none := by decide
  have hne : c ≠ '-' := by
    rintro rfl
    rw [hletters] at hc
    cases hc
  have hstep : r.step ['-', c] = r.short [c] := by
    simp [Reading.step, h.onlyPaths_eq, hne]
  rw [hstep, Reading.short, hc]
  exact bind_pure (r.flag f)

theorem exists_step (h : r.Stands g n) (hspells : Spells item arg) (hitem : item.apply g = .ok g') :
    ∃ r', r.step arg = .ok r' ∧ r'.Stands g' n := by
  cases hspells with
  | name hname =>
    rw [Reading.step_flag h.onlyPaths_eq hname]
    exact h.exists_flag hitem
  | letter hletter =>
    rw [h.step_letter hletter]
    exact h.exists_flag hitem
  | value hname value =>
    rw [Reading.step_assigned h.onlyPaths_eq hname]
    exact h.exists_attached hitem

end Reading.Stands

theorem Args.Consistent.path_ne (h : a.Consistent) : ∀ path ∈ a.paths, path ≠ [] := by
  rintro path hpath rfl
  rcases List.mem_cons.1 hpath with htemplate | hdata
  · exact h.template_ne htemplate.symm
  · exact h.data_ne (Option.mem_toList.1 hdata)

theorem exists_reads {r : Reading} {more written argv : List Text}
    (h : Interleaving more written argv) (hspells : List.Forall₂ Spells options written)
    (hr : r.Stands (a.given paths taken) paths.length)
    (hmore : ∀ path ∈ more, path ≠ [] ∧ path.head? ≠ some '-')
    (hlength : paths.length + more.length ≤ 2)
    (hoptions : ∀ item ∈ options, item ∈ a.choices) (hnodup : (taken ++ options).Nodup) :
    ∃ r', Reads r argv r' ∧
      r'.Stands (a.given (paths ++ more) (taken ++ options)) (paths ++ more).length := by
  induction h generalizing r paths taken options with
  | nil =>
    obtain rfl := List.forall₂_nil_right_iff.1 hspells
    refine ⟨r, rfl, ?_⟩
    simpa using hr
  | @left path more written argv h ih =>
    obtain ⟨⟨hne, hhead⟩, hmore⟩ := List.forall_mem_cons.1 hmore
    rw [List.length_cons] at hlength
    have hadd : (a.given paths taken).addPath path = .ok (a.given (paths ++ [path]) taken) :=
      addPath_given hne (by omega)
    obtain ⟨r₁, hstep, hr₁⟩ := hr.exists_path (by omega) hadd
    rw [← hr.step_path hhead] at hstep
    have hlength₁ : (paths ++ [path]).length = paths.length + 1 := List.length_append
    rw [← hlength₁] at hr₁
    obtain ⟨r', hreads, hr'⟩ := ih hspells hr₁ hmore (by omega) hoptions hnodup
    rw [List.append_assoc] at hr'
    exact ⟨r', reads_cons.2 ⟨r₁, hstep, hreads⟩, hr'⟩
  | @right arg more written argv h ih =>
    obtain ⟨item, options, hitem, hrest, rfl⟩ := List.forall₂_cons_right_iff.1 hspells
    obtain ⟨hmem, hoptions⟩ := List.forall_mem_cons.1 hoptions
    have hnew : item ∉ taken := by
      intro htaken
      exact (List.nodup_append.1 hnodup).2.2 item htaken item List.mem_cons_self rfl
    obtain ⟨r₁, hstep, hr₁⟩ := hr.exists_step hitem (apply_given hmem hnew)
    rw [List.append_cons] at hnodup
    obtain ⟨r', hreads, hr'⟩ := ih hrest hr₁ hmore hlength hoptions hnodup
    rw [List.append_assoc] at hr'
    exact ⟨r', reads_cons.2 ⟨r₁, hstep, hreads⟩, hr'⟩

theorem exists_name (o : Opt) : ∃ name, longNames.lookup name = some o := by
  have hlookup : ∀ n ∈ longNames, longNames.lookup n.1 = some n.2 := by decide
  have hnamed : ∃ n ∈ longNames, n.2 = o := by
    cases o with
    | flag f => cases f <;> decide
    | setting s => cases s <;> decide
  obtain ⟨n, hn, rfl⟩ := hnamed
  exact ⟨n.1, hlookup n hn⟩

theorem exists_spells (hitem : item ∈ a.choices) : ∃ arg, Spells item arg := by
  cases item with
  | path path => exact absurd hitem path_notMem_choices
  | flag f =>
    obtain ⟨name, hname⟩ := exists_name (.flag f)
    exact ⟨bare name, .name hname⟩
  | setting s value =>
    obtain ⟨name, hname⟩ := exists_name (.setting s)
    exact ⟨assigned name value, .value hname value⟩

theorem exists_written (hoptions : ∀ item ∈ options, item ∈ a.choices) :
    ∃ written, List.Forall₂ Spells options written := by
  induction options with
  | nil => exact ⟨[], .nil⟩
  | cons item options ih =>
    obtain ⟨hitem, hrest⟩ := List.forall_mem_cons.1 hoptions
    obtain ⟨arg, harg⟩ := exists_spells hitem
    obtain ⟨written, hwritten⟩ := ih hrest
    exact ⟨arg :: written, .cons harg hwritten⟩

theorem Args.exists_writtenAs (a : Args) : ∃ argv, a.WrittenAs argv := by
  obtain ⟨written, hwritten⟩ := exists_written fun item (hitem : item ∈ a.choices) ↦ hitem
  exact ⟨a.paths ++ written, a.choices, written, .refl _, hwritten, .append _ _⟩

/-- Arguments that do not contradict each other can be written, if neither path is taken for an option, and
all ways to write them are read as these arguments. -/
theorem parse_writtenAs (h : a.Consistent) (hpaths : ∀ path ∈ a.paths, path.head? ≠ some '-') :
    (∃ argv, a.WrittenAs argv) ∧ ∀ argv, a.WrittenAs argv → parse argv = .ok a := by
  refine ⟨a.exists_writtenAs, ?_⟩
  rintro argv ⟨options, written, hperm, hspells, hinterleaving⟩
  have hstart : Reading.Stands {} (a.given [] []) 0 := by
    rw [given_nil]
    exact ⟨rfl, rfl, rfl⟩
  have hlength : 0 + a.paths.length ≤ 2 := by
    cases hdata : a.data <;> simp [Args.paths, hdata]
  have hnodup : ([] ++ options).Nodup := hperm.nodup_iff.2 (nodup_choices a)
  have hplain : ∀ path ∈ a.paths, path ≠ [] ∧ path.head? ≠ some '-' := by
    intro path hpath
    exact ⟨h.path_ne path hpath, hpaths path hpath⟩
  obtain ⟨r, hreads, hr⟩ := exists_reads hinterleaving hspells hstart hplain hlength
    (fun item ↦ hperm.mem_iff.1) hnodup
  apply parse_eq_ok.2
  refine ⟨r, _, hreads, hr.settle_eq, ?_⟩
  rw [List.nil_append, List.nil_append, given_congr fun item ↦ hperm.mem_iff]
  exact finish_given h

def oddOutput : Args :=
  { streamArgs with
    output := some "--to=a b".toList
    strict := true
    encoding := .utf16Big
    noClobber := true
    verbose := true }

theorem parse_writtenAs_oddOutput :
    parse [['-', 'v'], assigned "output".toList "--to=a b".toList, "t".toList,
      bare "no-clobber".toList, ['-', 's'], assigned "encoding".toList "utf16be".toList,
      bare "strict".toList] = .ok oddOutput := by
  have hconsistent : oddOutput.Consistent := by
    constructor <;> simp [oddOutput, streamArgs]
  have hpaths : ∀ path ∈ oddOutput.paths, path.head? ≠ some '-' := by
    simp [Args.paths, oddOutput, streamArgs]
  have hperm : [.flag .verbose, .setting .output "--to=a b".toList, .flag .noClobber, .flag .stdin,
      .setting .encoding "utf16be".toList, .flag .strict].Perm oddOutput.choices := by
    decide
  have hspells : List.Forall₂ Spells
      [.flag .verbose, .setting .output "--to=a b".toList, .flag .noClobber, .flag .stdin,
        .setting .encoding "utf16be".toList, .flag .strict]
      [['-', 'v'], assigned "output".toList "--to=a b".toList, bare "no-clobber".toList, ['-', 's'],
        assigned "encoding".toList "utf16be".toList, bare "strict".toList] :=
    .cons (.letter (by decide)) (.cons (.value (by decide) _) (.cons (.name (by decide))
      (.cons (.letter (by decide)) (.cons (.value (by decide) _) (.cons (.name (by decide)) .nil)))))
  have hinterleaving : Interleaving oddOutput.paths
      [['-', 'v'], assigned "output".toList "--to=a b".toList, bare "no-clobber".toList, ['-', 's'],
        assigned "encoding".toList "utf16be".toList, bare "strict".toList]
      [['-', 'v'], assigned "output".toList "--to=a b".toList, "t".toList, bare "no-clobber".toList,
        ['-', 's'], assigned "encoding".toList "utf16be".toList, bare "strict".toList] :=
    .right (.right (.left (.right (.right (.right (.right .nil))))))
  exact (parse_writtenAs hconsistent hpaths).2 _ ⟨_, _, hperm, hspells, hinterleaving⟩

end TildeMerge.Command
