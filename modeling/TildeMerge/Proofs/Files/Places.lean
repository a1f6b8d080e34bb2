import TildeMerge.Proofs.Files.Writing

namespace TildeMerge.FileSystem

open TildeMerge.Path

variable {fs fs' : FileSystem} {p name segment : Text} {dir loc : Location} {ss : List Text}
  {bytes : Bytes} {mode : WriteMode}

def stepInto (dir : Location) (segment : Text) : Location :=
  if segment = ['.'] then dir else if segment = ['.', '.'] then dir.dropLast else dir ++ [segment]

/-- The place that a path names, whether or not something is there. -/
def place (fs : FileSystem) (p : Text) : Location :=
  (segments p).foldl stepInto (fs.startOf p)

theorem enter_eq_ok (h : fs.enter dir segment = .ok loc) : loc = stepInto dir segment := by
  unfold enter at h
  unfold stepInto
  split at h
  · rename_i hdot
    rw [if_pos hdot]
    exact (Except.ok.inj h).symm
  · rename_i hdot
    rw [if_neg hdot]
    split at h
    · rename_i hdots
      rw [if_pos hdots]
      exact (Except.ok.inj h).symm
    · rename_i hdots
      rw [if_neg hdots]
      split at h
      · cases h
      · split at h
        · cases h
        · cases h
        · exact (Except.ok.inj h).symm

theorem walk_eq_ok (h : fs.walk dir ss = .ok loc) : loc = ss.foldl stepInto dir := by
  induction ss generalizing dir with
  | nil => exact (Except.ok.inj h).symm
  | cons s ss ih =>
    rw [walk] at h
    cases he : fs.enter dir s with
    | error e =>
      rw [he] at h
      cases h
    | ok next =>
      rw [he] at h
      rw [List.foldl_cons, ← enter_eq_ok he]
      exact ih h

theorem walk_of_stays (fs : FileSystem) (dir : Location) (h : Stays ss) :
    fs.walk dir ss = .ok dir := by
  induction ss with
  | nil => rfl
  | cons s ss ih =>
    obtain ⟨rfl, hss⟩ := List.forall_mem_cons.1 h
    rw [walk]
    exact ih hss

theorem Denotes.eq_place (h : fs.Denotes p loc) : loc = fs.place p := by
  obtain ⟨above, name, hfollow, rfl⟩ := h
  obtain ⟨hsplit, hw, hdot, hdots, -⟩ := follow_named hfollow
  rw [place, hsplit, List.foldl_append, ← walk_eq_ok hw]
  simp [stepInto, hdot, hdots]

theorem place_congr (h : fs'.workingDirectory = fs.workingDirectory) (p : Text) :
    fs'.place p = fs.place p := by
  rw [place, place, startOf, startOf, h]

theorem makeParent_of_empty (h : parent p = []) : fs.makeParent p = (fs, .ok ()) := by
  simp [makeParent_eq, h]

theorem makeParent_of_refused {e : IoError} (h : parent p ≠ [])
    (hc : checkPath (parent p) = .error e) : fs.makeParent p = (fs, .error e) := by
  simp [makeParent_eq, h, hc]

theorem makeParent_of_path (h : parent p ≠ []) (hc : checkPath (parent p) = .ok ()) :
    fs.makeParent p =
      ((fs.makeDirectories (fs.startOf (parent p)) (segments (parent p)).reverse).1,
        (fs.makeDirectories (fs.startOf (parent p)) (segments (parent p)).reverse).2.map
          fun _ ↦ ()) := by
  simp [makeParent_eq, h, hc]

theorem makeParent_workingDirectory (fs : FileSystem) (p : Text) :
    (fs.makeParent p).1.workingDirectory = fs.workingDirectory := by
  by_cases hp : parent p = []
  · rw [makeParent_of_empty hp]
  · cases hc : checkPath (parent p) with
    | error e => rw [makeParent_of_refused hp hc]
    | ok u =>
      rw [makeParent_of_path hp hc]
      exact (makeDirectories_grows fs _ _).1.workingDirectory

theorem writeFile_workingDirectory (fs : FileSystem) (p : Text) (bytes : Bytes) (mode : WriteMode) :
    (fs.writeFile p bytes mode).1.workingDirectory = fs.workingDirectory := by
  have hparent := fs.makeParent_workingDirectory p
  rw [writeFile_eq]
  rcases hm : fs.makeParent p with ⟨made, refused | u⟩
  · rw [hm] at hparent
    exact hparent
  · rw [hm] at hparent
    dsimp only
    cases hs : made.store p bytes mode with
    | error cause => exact hparent
    | ok written =>
      obtain ⟨-, -, loc, -, -, -, rfl⟩ := store_eq_ok hs
      exact hparent

theorem exists_walk_of_makeParent (hp : EndsInName p name)
    (h : (fs.makeParent p).2 = .ok ()) :
    ∃ above, (fs.makeParent p).1.walk (fs.startOf p) (segments p).dropLast = .ok above := by
  obtain ⟨before, hsplit, hstays⟩ := hp.segments_eq
  rw [hsplit, List.dropLast_concat]
  by_cases hempty : parent p = []
  · refine ⟨fs.startOf p, ?_⟩
    have hnil : segments [] = [] := rfl
    rw [hempty, hnil, List.nil_append]
    exact walk_of_stays _ _ hstays
  · cases hc : checkPath (parent p) with
    | error e =>
      rw [makeParent_of_refused hempty hc] at h
      cases h
    | ok u =>
      rw [makeParent_of_path hempty hc] at h ⊢
      have hwalk := (makeDirectories_grows fs (fs.startOf (parent p)) (segments (parent p)).reverse).2
      dsimp only at h ⊢
      cases hmade : (fs.makeDirectories (fs.startOf (parent p)) (segments (parent p)).reverse).2 with
      | error e =>
        rw [hmade] at h
        cases h
      | ok above =>
        have habove := hwalk above hmade
        rw [List.reverse_reverse] at habove
        have hstart : fs.startOf p = fs.startOf (parent p) := by
          rw [startOf, startOf, isAbsolute_parent hempty]
        refine ⟨above, ?_⟩
        rw [hstart, walk_append, habove]
        exact walk_of_stays _ _ hstays

theorem denotes_of_makeParent (hp : EndsInName p name) (hsize : name.size ≤ maxName)
    (h : (fs.makeParent p).2 = .ok ()) : (fs.makeParent p).1.Denotes p (fs.place p) := by
  obtain ⟨above, hwalk⟩ := exists_walk_of_makeParent hp h
  have hstart := fs.makeParent_workingDirectory p
  obtain ⟨-, hlast, hdot, hdots⟩ := hp
  have hfollow := follow_of_walk hwalk hlast hdot hdots hsize
  have hdenotes : (fs.makeParent p).1.Denotes p (above ++ [name]) := by
    refine ⟨above, name, ?_, rfl⟩
    rw [startOf, hstart]
    exact hfollow
  rwa [hdenotes.eq_place, place_congr hstart] at hdenotes

end TildeMerge.FileSystem
