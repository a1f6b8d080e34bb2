import TildeMerge.Proofs.Files.Directories
import TildeMerge.Proofs.Files.Parents

namespace TildeMerge

def WriteMode.content (mode : WriteMode) (old : Option Bytes) (bytes : Bytes) : Bytes :=
  match mode with
  | .append => old.getD [] ++ bytes
  | .overwrite | .createNew => bytes

namespace FileSystem

open TildeMerge.Path

variable {fs fs' : FileSystem} {p name : Text} {loc above : Location} {bytes : Bytes}
  {mode : WriteMode}

/-- A place above the one that a path names: some of the segments lead to it, but not all. -/
def IsParent (fs : FileSystem) (p : Text) (loc : Location) : Prop :=
  ∃ lead rest, segments p = lead ++ rest ∧ lead ≠ [] ∧ rest ≠ [] ∧
    fs.walk (fs.startOf p) lead = .ok loc

theorem makeParent_entry? (fs : FileSystem) (p : Text) (loc : Location) :
    FileSystem.entry? (fs.makeParent p).1 loc = fs.entry? loc ∨
      fs.entry? loc = none ∧ FileSystem.entry? (fs.makeParent p).1 loc = some .directory ∧
        (fs.makeParent p).1.IsParent p loc := by
  by_cases hp : parent p = []
  · have hsame : fs.makeParent p = (fs, .ok ()) := by
      simp [makeParent_eq, hp]
    exact .inl (by rw [hsame])
  · cases hc : checkPath (parent p) with
    | error e =>
      have hsame : fs.makeParent p = (fs, .error e) := by
        simp [makeParent_eq, hp, hc]
      exact .inl (by rw [hsame])
    | ok _ =>
      have hmade : (fs.makeParent p).1 =
          (fs.makeDirectories (fs.startOf (parent p)) (segments (parent p)).reverse).1 := by
        simp [makeParent_eq, hp, hc]
      have hgrows := (makeDirectories_grows fs (fs.startOf (parent p))
        (segments (parent p)).reverse).1
      rw [List.reverse_reverse, ← hmade] at hgrows
      rcases hgrows.entry loc with hsame | ⟨hnone, hdir, lead, hlead, hne, hw⟩
      · exact .inl hsame
      · obtain ⟨more, hmore⟩ := hlead
        obtain ⟨rest, hrest, hrne⟩ := segments_parent hp
        have hstart : (fs.makeParent p).1.startOf p = fs.startOf (parent p) := by
          rw [startOf, startOf, isAbsolute_parent hp, hgrows.workingDirectory]
        refine .inr ⟨hnone, hdir, lead, more ++ rest, ?_, hne, by simp [hrne], ?_⟩
        · rw [← List.append_assoc, hmore, hrest]
        · rw [hstart, hw]

theorem writeFile_of_error {e : Error}
    (h : (fs.writeFile p bytes mode).2.result = .error e) :
    (fs.writeFile p bytes mode).1 = (fs.makeParent p).1 := by
  rw [writeFile_eq] at h ⊢
  rcases hm : fs.makeParent p with ⟨made, refused | _⟩
  · rfl
  · rw [hm] at h
    dsimp only at h ⊢
    cases hs : made.store p bytes mode with
    | error cause => rfl
    | ok written =>
      rw [hs] at h
      cases h

def fileAt (fs : FileSystem) (loc : Location) : Option Bytes :=
  match fs.entry? loc with
  | some (.file bytes) => some bytes
  | _ => none

/-- The path leads to the place: to a name in a directory that is there. -/
def Denotes (fs : FileSystem) (p : Text) (loc : Location) : Prop :=
  ∃ above name, fs.follow (fs.startOf p) (segments p) = .ok (.named above name) ∧
    loc = above ++ [name]

theorem Denotes.ne_nil (h : fs.Denotes p loc) : loc ≠ [] := by
  obtain ⟨above, name, -, rfl⟩ := h
  simp

theorem fileAt_congr (h : fs'.entry? loc = fs.entry? loc) : fs'.fileAt loc = fs.fileAt loc := by
  rw [fileAt, fileAt, h]

theorem fileAt_put (hloc : loc ≠ []) (bytes : Bytes) (l : Location) :
    (fs.put loc (.file bytes)).fileAt l = if l = loc then some bytes else fs.fileAt l := by
  rw [fileAt, entry?_put fs hloc]
  by_cases hl : l = loc
  · rw [if_pos hl, if_pos hl]
  · rw [if_neg hl, if_neg hl]
    rfl

theorem fileAt_makeParent (fs : FileSystem) (p : Text) (loc : Location) :
    (fs.makeParent p).1.fileAt loc = fs.fileAt loc := by
  rcases fs.makeParent_entry? p loc with hsame | ⟨hnone, hdir, -⟩
  · exact fileAt_congr hsame
  · rw [fileAt, fileAt, hnone, hdir]

theorem follow_of_walk {dir : Location} {segments : List Text}
    (hw : fs.walk dir segments.dropLast = .ok above) (hlast : segments.getLast? = some name)
    (hdot : name ≠ ['.']) (hdots : name ≠ ['.', '.']) (hsize : name.size ≤ maxName) :
    fs.follow dir segments = .ok (.named above name) := by
  unfold follow
  rw [hlast]
  simp [hw, hdot, hdots, hsize, bind, Except.bind, pure, Except.pure]

theorem Denotes.of_directories (h : fs.Denotes p loc)
    (hstart : fs'.workingDirectory = fs.workingDirectory)
    (hdirs : ∀ l, fs.entry? l = some .directory → fs'.entry? l = some .directory) :
    fs'.Denotes p loc := by
  obtain ⟨above, name, hfollow, rfl⟩ := h
  obtain ⟨hsplit, hw, hdot, hdots, hsize⟩ := follow_named hfollow
  have hlast : (segments p).getLast? = some name := by
    rw [hsplit, List.getLast?_concat]
  have hw' := walk_of_directories hdirs hw
  refine ⟨above, name, ?_, rfl⟩
  rw [startOf, hstart, ← startOf]
  exact follow_of_walk hw' hlast hdot hdots hsize

theorem Denotes.put_file (h : fs.Denotes p loc) (hdir : fs.entry? loc ≠ some .directory)
    (bytes : Bytes) : (fs.put loc (.file bytes)).Denotes p loc := by
  have hkept : ∀ l, fs.entry? l = some .directory →
      FileSystem.entry? (fs.put loc (.file bytes)) l = some .directory := by
    intro l hl
    have hne : l ≠ loc := by
      rintro rfl
      exact hdir hl
    rw [entry?_put fs h.ne_nil, if_neg hne, hl]
  have hstart : (fs.put loc (.file bytes)).workingDirectory = fs.workingDirectory := rfl
  exact h.of_directories hstart hkept

theorem content_none (mode : WriteMode) (bytes : Bytes) : mode.content none bytes = bytes := by
  cases mode <;> rfl

/-- What a file system stores, and when: the path leads to a place that holds no directory, and for a
new file nothing at all. -/
theorem store_eq_ok (h : fs.store p bytes mode = .ok fs') :
    checkPath p = .ok () ∧ endsInSlash p = false ∧ ∃ loc, fs.Denotes p loc ∧
      fs.entry? loc ≠ some .directory ∧ (mode = .createNew → fs.entry? loc = none) ∧
      fs' = fs.put loc (.file (mode.content (fs.fileAt loc) bytes)) := by
  unfold store at h
  cases hcheck : checkPath p with
  | error e =>
    rw [hcheck] at h
    cases h
  | ok u =>
    simp only [hcheck, bind, Except.bind] at h
    split at h
    · cases hw : fs.walk (fs.startOf p) (segments p).dropLast <;> rw [hw] at h <;> cases h
    · rename_i hslash
      cases hfollow : fs.follow (fs.startOf p) (segments p) with
      | error e =>
        rw [hfollow] at h
        cases h
      | ok target =>
        rw [hfollow] at h
        cases target with
        | reached dir => cases h
        | named above name =>
          obtain ⟨hsplit, -, hdot, hdots, -⟩ := follow_named hfollow
          have hlast : (segments p).getLast? = some name := by
            rw [hsplit, List.getLast?_concat]
          have hends : endsInSlash p = false := by
            simpa [hlast, hdot, hdots] using hslash
          refine ⟨rfl, hends, above ++ [name], ⟨above, name, hfollow, rfl⟩, ?_⟩
          dsimp only at h
          cases he : fs.entry? (above ++ [name]) with
          | none =>
            have hold : fs.fileAt (above ++ [name]) = none := by rw [fileAt, he]
            rw [he] at h
            rw [hold, content_none]
            exact ⟨nofun, fun _ ↦ rfl, (Except.ok.inj h).symm⟩
          | some entry =>
            rw [he] at h
            cases entry with
            | directory => cases h
            | file old =>
              have hold : fs.fileAt (above ++ [name]) = some old := by rw [fileAt, he]
              rw [hold]
              cases mode with
              | createNew => cases h
              | overwrite => exact ⟨nofun, nofun, (Except.ok.inj h).symm⟩
              | append => exact ⟨nofun, nofun, (Except.ok.inj h).symm⟩

theorem read_of_denotes (hcheck : checkPath p = .ok ()) (hends : endsInSlash p = false)
    (h : fs.Denotes p loc) (hfile : fs.fileAt loc = some bytes) : fs.read p = .ok bytes := by
  obtain ⟨above, name, hfollow, rfl⟩ := h
  have he : fs.entry? (above ++ [name]) = some (.file bytes) := by
    unfold fileAt at hfile
    split at hfile
    · rename_i content he
      rw [he, Option.some.inj hfile]
    · cases hfile
  unfold read
  simp only [hcheck, hfollow, bind, Except.bind]
  rw [he]
  simp [hends, pure, Except.pure]

/-- A write that succeeds sets the content of the file that the path names, where it can be read, and
of no other one. -/
theorem writeFile_of_ok (h : (fs.writeFile p bytes mode).2.result = .ok ()) :
    ∃ loc, (fs.writeFile p bytes mode).1.Denotes p loc ∧
      (fs.writeFile p bytes mode).1.read p = .ok (mode.content (fs.fileAt loc) bytes) ∧
      ∀ l, (fs.writeFile p bytes mode).1.fileAt l =
        if l = loc then some (mode.content (fs.fileAt loc) bytes) else fs.fileAt l := by
  have hparent := fs.fileAt_makeParent p
  rw [writeFile_eq] at h ⊢
  rcases hm : fs.makeParent p with ⟨made, refused | _⟩
  · rw [hm] at h
    cases h
  · rw [hm] at h hparent
    dsimp only at h hparent ⊢
    cases hs : made.store p bytes mode with
    | error cause =>
      rw [hs] at h
      cases cause <;> cases h
    | ok written =>
      obtain ⟨hcheck, hends, loc, hdenotes, hdir, -, rfl⟩ := store_eq_ok hs
      have hloc := hdenotes.ne_nil
      rw [hparent]
      dsimp only
      have hplace := hdenotes.put_file hdir (mode.content (fs.fileAt loc) bytes)
      have hfiles (l : Location) : (made.put loc (.file (mode.content (fs.fileAt loc) bytes))).fileAt l =
          if l = loc then some (mode.content (fs.fileAt loc) bytes) else fs.fileAt l := by
        rw [fileAt_put hloc, hparent]
      have hcontent := (hfiles loc).trans (if_pos rfl)
      exact ⟨loc, hplace, read_of_denotes hcheck hends hplace hcontent, hfiles⟩

end FileSystem

end TildeMerge
