import TildeMerge.Proofs.Files.Storing

namespace TildeMerge

open TildeMerge.Path

structure Write where
  path : Text
  bytes : Bytes
  mode : WriteMode

def Write.content (old : Option Bytes) (w : Write) : Option Bytes :=
  some (w.mode.content old w.bytes)

namespace FileSystem

variable {fs : FileSystem} {w : Write} {loc : Location} {name : Text}

def write (fs : FileSystem) (w : Write) : FileSystem × Except Error Unit :=
  ((fs.writeFile w.path w.bytes w.mode).1, (fs.writeFile w.path w.bytes w.mode).2.result)

/-- Carries out writes one after the other, whether or not they succeed, and gives how each one ends. -/
def writeAll (fs : FileSystem) : List Write → FileSystem × List (Except Error Unit)
  | [] => (fs, [])
  | w :: ws => (((fs.write w).1.writeAll ws).1, (fs.write w).2 :: ((fs.write w).1.writeAll ws).2)

/-- The writes to a place that succeed, in order. -/
def successes (fs : FileSystem) (ws : List Write) (loc : Location) : List Write :=
  ((ws.zip (fs.writeAll ws).2).filter fun (w, outcome) ↦
    outcome.isOk && fs.place w.path == loc).map Prod.fst

theorem write_eq_ok (h : (fs.write w).2 = .ok ()) :
    (fs.write w).1.Denotes w.path (fs.place w.path) ∧
      (fs.write w).1.read w.path =
        .ok (w.mode.content (fs.fileAt (fs.place w.path)) w.bytes) ∧
      ∀ loc, (fs.write w).1.fileAt loc =
        if loc = fs.place w.path then w.content (fs.fileAt loc) else fs.fileAt loc := by
  obtain ⟨place, hdenotes, hread, hfiles⟩ := writeFile_of_ok h
  have hstart : (fs.write w).1.workingDirectory = fs.workingDirectory :=
    writeFile_workingDirectory fs w.path w.bytes w.mode
  have hplace : place = fs.place w.path := hdenotes.eq_place.trans (place_congr hstart w.path)
  subst hplace
  refine ⟨hdenotes, hread, fun loc ↦ (hfiles loc).trans ?_⟩
  split
  · rename_i hloc
    rw [hloc]
    rfl
  · rfl

theorem write_eq_error {e : Error} (h : (fs.write w).2 = .error e) (loc : Location) :
    (fs.write w).1.fileAt loc = fs.fileAt loc := by
  have hsame : (fs.write w).1 = (fs.makeParent w.path).1 := writeFile_of_error h
  rw [hsame, fileAt_makeParent]

theorem fileAt_write (fs : FileSystem) (w : Write) (loc : Location) :
    (fs.write w).1.fileAt loc =
      if (fs.write w).2.isOk && fs.place w.path == loc then w.content (fs.fileAt loc)
      else fs.fileAt loc := by
  cases h : (fs.write w).2 with
  | error e => simpa [Except.isOk, Except.toBool] using write_eq_error h loc
  | ok u =>
    rw [(write_eq_ok h).2.2 loc]
    by_cases hloc : loc = fs.place w.path
    · simp [Except.isOk, Except.toBool, hloc]
    · simp [Except.isOk, Except.toBool, hloc, Ne.symm hloc]

theorem write_workingDirectory (fs : FileSystem) (w : Write) :
    (fs.write w).1.workingDirectory = fs.workingDirectory :=
  writeFile_workingDirectory fs w.path w.bytes w.mode

theorem successes_cons (fs : FileSystem) (w : Write) (ws : List Write) (loc : Location) :
    fs.successes (w :: ws) loc =
      if (fs.write w).2.isOk && fs.place w.path == loc then w :: (fs.write w).1.successes ws loc
      else (fs.write w).1.successes ws loc := by
  have hplace (v : Write) : (fs.write w).1.place v.path = fs.place v.path :=
    place_congr (fs.write_workingDirectory w) v.path
  simp only [successes, writeAll, List.zip_cons_cons, List.filter_cons, hplace]
  split <;> rfl

theorem fileAt_writeAll (fs : FileSystem) (ws : List Write) (loc : Location) :
    (fs.writeAll ws).1.fileAt loc = (fs.successes ws loc).foldl Write.content (fs.fileAt loc) := by
  induction ws generalizing fs with
  | nil => rfl
  | cons w ws ih =>
    rw [writeAll, ih, successes_cons, fileAt_write]
    split
    · rfl
    · rfl

theorem entry?_of_makeParent (h : FileSystem.entry? (fs.makeParent w.path).1 loc = none) :
    fs.entry? loc = none := by
  rcases fs.makeParent_entry? w.path loc with hsame | ⟨hnone, -, -⟩
  · rw [← hsame, h]
  · exact hnone

theorem write_of_makeParent_error {cause : IoError} (h : (fs.makeParent w.path).2 = .error cause) :
    (fs.write w).2 = .error (.io cause) :=
  writeFile_of_makeParent_error h

theorem write_of_makeParent_ok (h : (fs.makeParent w.path).2 = .ok ()) :
    (fs.write w).2 = (storeOutcome w.path w.bytes.length w.mode
      (((fs.makeParent w.path).1.store w.path w.bytes w.mode).map fun _ ↦ ())).result :=
  congrArg Logged.result (writeFile_of_makeParent_ok h)

theorem makeParent_of_write_eq_ok (h : (fs.write w).2 = .ok ()) :
    (fs.makeParent w.path).2 = .ok () := by
  cases hm : (fs.makeParent w.path).2 with
  | ok u => rfl
  | error cause =>
    rw [write_of_makeParent_error hm] at h
    cases h

theorem store_of_write_eq_ok (h : (fs.write w).2 = .ok ()) :
    ∃ stored, (fs.makeParent w.path).1.store w.path w.bytes w.mode = .ok stored := by
  rw [write_of_makeParent_ok (makeParent_of_write_eq_ok h), storeOutcome_result] at h
  cases hs : (fs.makeParent w.path).1.store w.path w.bytes w.mode with
  | ok stored => exact ⟨stored, rfl⟩
  | error cause =>
    rw [hs] at h
    cases cause <;> cases h

theorem createNew_fresh (hmode : w.mode = .createNew) (h : (fs.write w).2 = .ok ()) :
    fs.entry? (fs.place w.path) = none := by
  obtain ⟨stored, hs⟩ := store_of_write_eq_ok h
  obtain ⟨-, -, loc, hdenotes, -, hnone, -⟩ := store_eq_ok hs
  have hplace := hdenotes.eq_place.trans (place_congr (fs.makeParent_workingDirectory w.path) w.path)
  rw [← hplace]
  exact entry?_of_makeParent (hnone hmode)

theorem createNew_occupied (hp : EndsInName w.path name) (hmode : w.mode = .createNew)
    (hmade : (fs.makeParent w.path).2 = .ok ()) (h : (fs.makeParent w.path).1.Occupied w.path) :
    (fs.write w).2 = .error (.outputExists w.path) := by
  obtain ⟨hcheck, hdenotes, e, he⟩ := h
  rw [write_of_makeParent_ok hmade, storeOutcome_result,
    store_of_denotes hcheck hp.1 hdenotes, he, hmode]
  rfl

theorem write_eq_outputExists (hp : EndsInName w.path name) {q : Text}
    (h : (fs.write w).2 = .error (.outputExists q)) :
    q = w.path ∧ w.mode = .createNew ∧ (fs.makeParent w.path).2 = .ok () ∧
      (fs.makeParent w.path).1.Occupied w.path := by
  cases hm : (fs.makeParent w.path).2 with
  | error cause =>
    rw [write_of_makeParent_error hm] at h
    cases h
  | ok u =>
    rw [write_of_makeParent_ok hm] at h
    obtain ⟨hstored, rfl⟩ := storeOutcome_eq_outputExists h
    cases hs : (fs.makeParent w.path).1.store w.path w.bytes w.mode with
    | ok stored =>
      rw [hs] at hstored
      cases hstored
    | error cause =>
      rw [hs] at hstored
      obtain rfl : cause = .alreadyExists := Except.error.inj hstored
      obtain ⟨hmode, hoccupied⟩ := store_eq_alreadyExists hp hs
      exact ⟨rfl, hmode, rfl, hoccupied⟩

theorem occupied_iff (hp : EndsInName w.path name) (hsize : name.size ≤ maxName)
    (hcheck : checkPath w.path = .ok ()) (hmade : (fs.makeParent w.path).2 = .ok ()) :
    (fs.makeParent w.path).1.Occupied w.path ↔
      ∃ e, FileSystem.entry? (fs.makeParent w.path).1 (fs.place w.path) = some e := by
  have hplace := place_congr (fs.makeParent_workingDirectory w.path) w.path
  have hdenotes := denotes_of_makeParent hp hsize hmade
  constructor
  · rintro ⟨-, -, e, he⟩
    exact ⟨e, hplace ▸ he⟩
  · rintro ⟨e, he⟩
    refine ⟨hcheck, ?_, e, ?_⟩
    · rwa [hplace]
    · rwa [hplace]

/-- What holds of one write to a path that ends in a name. -/
structure WriteLaws (fs : FileSystem) (w : Write) (name : Text) : Prop where
  failed : ∀ e, (fs.write w).2 = .error e → ∀ loc, (fs.write w).1.fileAt loc = fs.fileAt loc
  others : ∀ loc, loc ≠ fs.place w.path → (fs.write w).1.fileAt loc = fs.fileAt loc
  succeeded : (fs.write w).2 = .ok () →
    (fs.write w).1.Denotes w.path (fs.place w.path) ∧
      (fs.write w).1.read w.path = .ok (w.mode.content (fs.fileAt (fs.place w.path)) w.bytes)
  createNew_fresh : w.mode = .createNew → (fs.write w).2 = .ok () →
    fs.entry? (fs.place w.path) = none
  createNew_occupied : w.mode = .createNew → (fs.makeParent w.path).2 = .ok () →
    (fs.makeParent w.path).1.Occupied w.path → (fs.write w).2 = .error (.outputExists w.path)
  outputExists : ∀ q, (fs.write w).2 = .error (.outputExists q) →
    q = w.path ∧ w.mode = .createNew ∧ (fs.makeParent w.path).2 = .ok () ∧
      (fs.makeParent w.path).1.Occupied w.path
  occupied_iff : name.size ≤ maxName → checkPath w.path = .ok () →
    (fs.makeParent w.path).2 = .ok () → ((fs.makeParent w.path).1.Occupied w.path ↔
      ∃ e, FileSystem.entry? (fs.makeParent w.path).1 (fs.place w.path) = some e)

theorem writeLaws (fs : FileSystem) (hp : EndsInName w.path name) : WriteLaws fs w name where
  failed _ h := write_eq_error h
  others loc hloc := by
    rw [fileAt_write]
    simp [Ne.symm hloc]
  succeeded h := ⟨(write_eq_ok h).1, (write_eq_ok h).2.1⟩
  createNew_fresh := createNew_fresh
  createNew_occupied hmode hmade h := createNew_occupied hp hmode hmade h
  outputExists _ h := write_eq_outputExists hp h
  occupied_iff hsize hcheck hmade := occupied_iff hp hsize hcheck hmade

theorem writeAll_append (fs : FileSystem) (ws vs : List Write) :
    fs.writeAll (ws ++ vs) =
      (((fs.writeAll ws).1.writeAll vs).1,
        (fs.writeAll ws).2 ++ ((fs.writeAll ws).1.writeAll vs).2) := by
  induction ws generalizing fs with
  | nil => rfl
  | cons w ws ih => simp [writeAll, ih]

theorem length_writeAll (fs : FileSystem) (ws : List Write) :
    (fs.writeAll ws).2.length = ws.length := by
  induction ws generalizing fs with
  | nil => rfl
  | cons w ws ih => simp [writeAll, ih]

/-- After a run of writes each file holds what the successful writes to its place make of it, in order.
Every write of the run keeps all other files, and all files if it fails. A new file is made only where
nothing was, and is refused as one that exists exactly if, with its parents made, its path leads to
something. -/
theorem writeAll_files (fs : FileSystem) (ws : List Write)
    (h : ∀ w ∈ ws, ∃ name, EndsInName w.path name) :
    (∀ loc, (fs.writeAll ws).1.fileAt loc =
      (fs.successes ws loc).foldl Write.content (fs.fileAt loc)) ∧
    ∀ before w after, ws = before ++ w :: after →
      (fs.writeAll ws).2[before.length]? = some ((fs.writeAll before).1.write w).2 ∧
      ∃ name, EndsInName w.path name ∧ WriteLaws (fs.writeAll before).1 w name := by
  refine ⟨fs.fileAt_writeAll ws, ?_⟩
  rintro before w after rfl
  obtain ⟨name, hp⟩ := h w (by simp)
  refine ⟨?_, name, hp, writeLaws _ hp⟩
  rw [writeAll_append, List.getElem?_append_right (length_writeAll fs before).le,
    length_writeAll, Nat.sub_self]
  rfl

def directoryOnly : FileSystem where
  entries := [([['d']], .directory)]
  workingDirectory := []

/-- Writes to one file by several paths, and two that are stopped on the way to it or beside it. -/
def aliases : List Write :=
  [⟨['f'], [1], .createNew⟩, ⟨['a', '/', '.', '.', '/', 'f'], [2], .append⟩,
    ⟨['d', '/', '.', '.', '/', 'f'], [3], .createNew⟩, ⟨['f', '/', 'x'], [4], .overwrite⟩,
    ⟨['b', '/', '.', '.', '/', 'b'], [5], .createNew⟩]

theorem writeAll_files_aliases :
    (directoryOnly.writeAll aliases).2 = [.ok (), .ok (),
        .error (.outputExists ['d', '/', '.', '.', '/', 'f']), .error (.io .alreadyExists),
        .error (.outputExists ['b', '/', '.', '.', '/', 'b'])] ∧
      (directoryOnly.writeAll aliases).1.fileAt [['f']] = some [1, 2] ∧
      ∃ name, WriteLaws (directoryOnly.writeAll (aliases.take 2)).1
        ⟨['d', '/', '.', '.', '/', 'f'], [3], .createNew⟩ name := by
  have hnames : ∀ w ∈ aliases, ∃ name, EndsInName w.path name := by
    have hall : ∀ w ∈ aliases, EndsInName w.path ((segments w.path).getLast?.getD []) := by
      unfold EndsInName
      decide
    exact fun w hw ↦ ⟨_, hall w hw⟩
  obtain ⟨hfiles, hlaws⟩ := writeAll_files directoryOnly aliases hnames
  obtain ⟨-, name, -, hlaw⟩ := hlaws (aliases.take 2) _ (aliases.drop 3) rfl
  refine ⟨by decide +kernel, ?_, name, hlaw⟩
  rw [hfiles]
  decide +kernel

end FileSystem

end TildeMerge
