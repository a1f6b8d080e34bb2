import TildeMerge.Json.Writer
import TildeMerge.Proofs.Command.Phases
import TildeMerge.Proofs.Json.Spacing
import TildeMerge.Proofs.Yaml.FramedText

namespace TildeMerge

namespace Record

open Text

def isFraming (c : Char) : Bool :=
  c == ' ' || c == '\n' || c == '\r'

/-- The white space around the text has no meaning. Around YAML, unless it ends in a block scalar, these are
the empty lines before it, and the spaces and line breaks behind it. -/
inductive Framed (t : Text) : Prop where
  | bare (h : t.trim = t)
  | json (h : (Json.read t).isSome)
  | lines (hlead : (t.takeWhile isBlank).all isFraming)
      (hlast : (t.takeWhile isBlank).getLast?.all Yaml.isBreak)
      (hbehind : (t.trimStart.rtakeWhile isBlank).all isFraming)
      (hblock : Yaml.endsInBlock t.trim = false)

variable {t u : Text}

theorem all_of_isFraming {p : Char → Bool} (hp : [' ', '\n', '\r'].all p) (h : u.all isFraming) :
    ∀ c ∈ u, p c := by
  intro c hc
  have hmem : c ∈ [' ', '\n', '\r'] := by
    simpa [isFraming, or_assoc] using List.all_eq_true.1 h c hc
  exact List.all_eq_true.1 hp c hmem

theorem readValue_lines (hlead : (t.takeWhile isBlank).all isFraming)
    (hlast : (t.takeWhile isBlank).getLast?.all Yaml.isBreak)
    (hbehind : (t.trimStart.rtakeWhile isBlank).all isFraming)
    (hblock : Yaml.endsInBlock t.trim = false) : readValue t.trim = readValue t := by
  have hblank : ∀ c ∈ t.takeWhile isBlank, isBlank c := fun _ h ↦ List.mem_takeWhile_imp h
  have hblank' : ∀ c ∈ t.trimStart.rtakeWhile isBlank, isBlank c := fun _ h ↦
    List.mem_rtakeWhile_imp h
  have hstart : t.trimStart = t.trim ++ t.trimStart.rtakeWhile isBlank :=
    List.rdropWhile_append_rtakeWhile.symm
  have ht : t = t.takeWhile isBlank ++ (t.trim ++ t.trimStart.rtakeWhile isBlank) := by
    rw [← hstart]
    exact List.takeWhile_append_dropWhile.symm
  have hjson : Json.read t = Json.read t.trim := by
    have hread := Json.read_between hblank hblank' t.trim
    rwa [← ht, List.all_eq_true.2 (all_of_isFraming (by rfl) hlead),
      List.all_eq_true.2 (all_of_isFraming (by rfl) hbehind)] at hread
  -- What trimming leaves at the start is no line feed that a carriage return could stand before.
  have hbreak : (t.trim ++ t.trimStart.rtakeWhile isBlank).head? ≠ some '\n' := by
    rw [← hstart]
    intro hhead
    have hstarts := List.head?_dropWhile_not isBlank t
    have htrim : t.dropWhile isBlank = t.trimStart := rfl
    rw [htrim, hhead] at hstarts
    cases hstarts
  have hyaml : Yaml.read t = Yaml.read t.trim := by
    conv_lhs => rw [ht]
    exact Yaml.read_framed (all_of_isFraming (by rfl) hlead) hlast (all_of_isFraming (by rfl) hbehind)
      hblock hbreak
  rw [readValue, readValue, hjson, hyaml]

theorem readValue_trim (h : Framed t) : readValue t.trim = readValue t := by
  cases h with
  | bare h => rw [h]
  | json h =>
    obtain ⟨v, hv⟩ := Option.isSome_iff_exists.1 h
    simp only [readValue, hv, Json.read_trim hv]
  | lines hlead hlast hbehind hblock => exact readValue_lines hlead hlast hbehind hblock

theorem ofStream_eq_ofFile {bytes : Bytes} (h : ∀ t, Utf8.decode? bytes = some t → Framed t) :
    ofStream bytes = ofFile bytes := by
  unfold ofStream ofFile
  cases hd : Utf8.decode? bytes with
  | none => rfl
  | some t => simp only [parse, readValue_trim (h t hd)]

end Record

namespace Command

def Args.fromFile (a : Args) (p : Text) : Args :=
  { a with data := some p, stdin := false }

def Args.fromStream (a : Args) : Args :=
  { a with stdin := true }

/-- The report of a run that has logged one entry more before all others. -/
def Report.preceded (r : Report) (e : LogEntry) : Report :=
  { r with log := e :: r.log }

variable {a : Args} {input bytes : Bytes} {fs : FileSystem} {p : Text}

theorem record_fromFile (h : fs.read p = .ok bytes) :
    record (a.fromFile p) input fs.read = ⟨[.loadingRecord p], Record.ofFile bytes⟩ := by
  change loadRecord fs.read p = _
  simp only [loadRecord, h]
  rfl

theorem produce_fromFile (h : fs.read p = .ok bytes)
    (hsame : Record.ofStream bytes = Record.ofFile bytes) :
    produce (a.fromFile p) input fs.read =
      ⟨.loadingRecord p :: (produce a.fromStream bytes fs.read).log,
        (produce a.fromStream bytes fs.read).result⟩ := by
  have hstream : record a.fromStream bytes fs.read = ⟨[], Record.ofFile bytes⟩ :=
    congrArg (Logged.mk []) hsame
  unfold produce
  rw [record_fromFile h, hstream]
  cases Record.ofFile bytes with
  | error e => rfl
  | ok v => rfl

theorem run_fromFile (h : fs.read p = .ok bytes)
    (hsame : Record.ofStream bytes = Record.ofFile bytes) :
    run (a.fromFile p) input fs =
      ((run a.fromStream bytes fs).1.preceded (.loadingRecord p), (run a.fromStream bytes fs).2) := by
  have hproduce : produce (a.fromFile p) input fs.read = _ := produce_fromFile h hsame
  have hresult : (produce (a.fromFile p) input fs.read).result =
      (produce a.fromStream bytes fs.read).result := by
    rw [hproduce]
  cases hr : (produce a.fromStream bytes fs.read).result with
  | error e =>
    rw [run_of_error (hresult.trans hr), run_of_error hr, hproduce]
    rfl
  | ok product =>
    cases ht : product.target with
    | none =>
      rw [run_of_stream (hresult.trans hr) ht, run_of_stream hr ht, hproduce]
      rfl
    | some target =>
      rw [run_of_file (hresult.trans hr) ht, run_of_file hr ht, hproduce]
      rfl

/-- Where the white space around a record has no meaning, the record is the same from a file and from the
stream: the runs end alike and leave the same files. -/
theorem record_sources_agree (h : fs.read p = .ok bytes)
    (hframed : ∀ t, Utf8.decode? bytes = some t → Record.Framed t) :
    Record.ofStream bytes = Record.ofFile bytes ∧
      run (a.fromFile p) input fs =
        ((run a.fromStream bytes fs).1.preceded (.loadingRecord p), (run a.fromStream bytes fs).2) :=
  ⟨Record.ofStream_eq_ofFile hframed, run_fromFile h (Record.ofStream_eq_ofFile hframed)⟩

/-- A record in YAML, behind an empty line and before a space. -/
def spacedRecord : Bytes :=
  [10, 120, 58, 32, 49, 10, 32]

def templateAndRecord : FileSystem :=
  { onlyTemplate with entries := onlyTemplate.entries ++ [([['r']], .file spacedRecord)] }

theorem record_sources_agree_spacedRecord :
    Record.ofStream spacedRecord = Record.ofFile spacedRecord ∧
      (run streamArgs.fromStream spacedRecord templateAndRecord).1.printed = [49] ∧
      (run (streamArgs.fromFile ['r']) [] templateAndRecord).1.printed = [49] ∧
      (run (streamArgs.fromFile ['r']) [] templateAndRecord).2 = templateAndRecord := by
  have hread : templateAndRecord.read ['r'] = .ok spacedRecord := rfl
  have hdecode : Utf8.decode? spacedRecord = some ['\n', 'x', ':', ' ', '1', '\n', ' '] := rfl
  have hframed : Record.Framed ['\n', 'x', ':', ' ', '1', '\n', ' '] := .lines rfl rfl rfl rfl
  have hstream : (run streamArgs.fromStream spacedRecord templateAndRecord).1.printed = [49] := by
    decide +kernel
  have hfiles : (run streamArgs.fromStream spacedRecord templateAndRecord).2 = templateAndRecord := by
    decide +kernel
  have hall : ∀ t, Utf8.decode? spacedRecord = some t → Record.Framed t := fun t ht ↦
    Option.some.inj (hdecode.symm.trans ht) ▸ hframed
  have hagree : Record.ofStream spacedRecord = Record.ofFile spacedRecord ∧
      run (streamArgs.fromFile ['r']) [] templateAndRecord = _ :=
    record_sources_agree hread hall
  obtain ⟨hrecord, hrun⟩ := hagree
  rw [hrun]
  exact ⟨hrecord, hstream, hstream, hfiles⟩

/-- Trimming takes the indentation from the first line of a record and from no other. -/
def indentedRecord : Text :=
  "  a: 1\n  b: 2\n".toList

theorem record_sources_agree_indented :
    (Record.ofFile (Utf8.encode indentedRecord)).map Json.write = .ok "\x7b\"a\":1,\"b\":2\x7d".toList ∧
      Record.ofStream (Utf8.encode indentedRecord) = .error .invalidRecord :=
  ⟨by decide +kernel, rfl⟩

end Command

end TildeMerge
