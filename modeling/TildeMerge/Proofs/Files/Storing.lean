import TildeMerge.Proofs.Files.Places

namespace TildeMerge.FileSystem

open TildeMerge.Path

variable {fs made : FileSystem} {p name segment : Text} {dir loc : Location} {ss : List Text}
  {bytes old : Bytes} {mode : WriteMode} {e : Entry}

/-- A file or a directory stands where the path leads. A text that the system does not take for a path
leads nowhere. -/
def Occupied (fs : FileSystem) (p : Text) : Prop :=
  checkPath p = .ok () ∧ fs.Denotes p (fs.place p) ∧ ∃ e, fs.entry? (fs.place p) = some e

theorem enter_ne_alreadyExists : fs.enter dir segment ≠ .error .alreadyExists := by
  intro h
  unfold enter at h
  split at h
  · cases h
  · split at h
    · cases h
    · split at h
      · cases h
      · split at h <;> cases h

theorem walk_ne_alreadyExists : fs.walk dir ss ≠ .error .alreadyExists := by
  intro h
  induction ss generalizing dir with
  | nil => cases h
  | cons s ss ih =>
    rw [walk] at h
    cases he : fs.enter dir s with
    | error cause =>
      rw [he] at h
      obtain rfl : cause = .alreadyExists := Except.error.inj h
      exact enter_ne_alreadyExists he
    | ok next =>
      rw [he] at h
      exact ih h

theorem checkPath_ne_alreadyExists : checkPath p ≠ .error .alreadyExists := by
  intro h
  unfold checkPath at h
  split at h
  · cases h
  · split at h
    · cases h
    · split at h <;> cases h

theorem follow_cases (fs : FileSystem) (hp : EndsInName p name) :
    (∃ cause, fs.follow (fs.startOf p) (segments p) = .error cause ∧ cause ≠ .alreadyExists) ∨
      fs.follow (fs.startOf p) (segments p) = .ok (.named (fs.place p).dropLast name) ∧
        fs.Denotes p (fs.place p) := by
  obtain ⟨-, hlast, hdot, hdots⟩ := hp
  cases hw : fs.walk (fs.startOf p) (segments p).dropLast with
  | error cause =>
    refine .inl ⟨cause, ?_, ?_⟩
    · rw [follow, hlast]
      simp [hw, bind, Except.bind]
    · rintro rfl
      exact walk_ne_alreadyExists hw
  | ok above =>
    by_cases hsize : name.size ≤ maxName
    · have hfollow := follow_of_walk hw hlast hdot hdots hsize
      have hdenotes : fs.Denotes p (above ++ [name]) := ⟨above, name, hfollow, rfl⟩
      rw [← hdenotes.eq_place, List.dropLast_concat]
      exact .inr ⟨hfollow, hdenotes⟩
    · refine .inl ⟨.nameTooLong, ?_, nofun⟩
      rw [follow, hlast]
      simp [hw, hdot, hdots, Nat.lt_of_not_le hsize, bind, Except.bind, throw, throwThe,
        MonadExceptOf.throw]

theorem store_of_denotes (hcheck : checkPath p = .ok ()) (hends : endsInSlash p = false)
    (h : fs.Denotes p loc) (bytes : Bytes) (mode : WriteMode) :
    fs.store p bytes mode =
      match fs.entry? loc, mode with
      | some _, .createNew => .error .alreadyExists
      | some .directory, _ => .error .isADirectory
      | _, _ => .ok (fs.put loc (.file (mode.content (fs.fileAt loc) bytes))) := by
  obtain ⟨above, name, hfollow, rfl⟩ := h
  unfold store
  simp only [hcheck, hends, hfollow, bind, Except.bind, Bool.false_and]
  cases he : fs.entry? (above ++ [name]) with
  | none =>
    have hold : fs.fileAt (above ++ [name]) = none := by rw [fileAt, he]
    rw [hold]
    cases mode <;> rfl
  | some e =>
    cases e with
    | directory => cases mode <;> rfl
    | file old =>
      have hold : fs.fileAt (above ++ [name]) = some old := by rw [fileAt, he]
      rw [hold]
      cases mode <;> rfl

theorem store_eq_alreadyExists (hp : EndsInName p name)
    (h : fs.store p bytes mode = .error .alreadyExists) : mode = .createNew ∧ fs.Occupied p := by
  cases hcheck : checkPath p with
  | error cause =>
    simp only [store, hcheck, bind, Except.bind] at h
    obtain rfl := Except.error.inj h
    exact absurd hcheck checkPath_ne_alreadyExists
  | ok u =>
    rcases follow_cases fs hp with ⟨cause, hfollow, hne⟩ | ⟨-, hdenotes⟩
    · simp only [store, hcheck, hp.1, hfollow, bind, Except.bind, Bool.false_and] at h
      exact absurd (Except.error.inj h) hne
    · rw [store_of_denotes hcheck hp.1 hdenotes] at h
      split at h
      · rename_i e he
        exact ⟨rfl, hcheck, hdenotes, e, he⟩
      · cases h
      · cases h

theorem writeFile_of_makeParent_error {cause : IoError} (h : (fs.makeParent p).2 = .error cause) :
    (fs.writeFile p bytes mode).2.result = .error (.io cause) := by
  rcases hm : fs.makeParent p with ⟨made, refused | u⟩
  · rw [hm] at h
    obtain rfl := Except.error.inj h
    simp [writeFile_eq, hm]
  · rw [hm] at h
    cases h

theorem writeFile_of_makeParent_ok (h : (fs.makeParent p).2 = .ok ()) :
    (fs.writeFile p bytes mode).2 =
      storeOutcome p bytes.length mode
        (((fs.makeParent p).1.store p bytes mode).map fun _ ↦ ()) := by
  rcases hm : fs.makeParent p with ⟨made, refused | u⟩
  · rw [hm] at h
    cases h
  · cases hs : made.store p bytes mode <;> simp [writeFile_eq, hm, hs, Except.map]

theorem storeOutcome_result (p : Text) (n : Nat) (mode : WriteMode) (stored : Except IoError Unit) :
    (storeOutcome p n mode stored).result =
      match stored with
      | .ok () => .ok ()
      | .error .alreadyExists => .error (.outputExists p)
      | .error cause => .error (.io cause) := by
  cases stored with
  | ok u => rfl
  | error cause => cases cause <;> rfl

theorem storeOutcome_eq_outputExists {n : Nat} {stored : Except IoError Unit} {q : Text}
    (h : (storeOutcome p n mode stored).result = .error (.outputExists q)) :
    stored = .error .alreadyExists ∧ q = p := by
  rw [storeOutcome_result] at h
  split at h
  · cases h
  · exact ⟨rfl, (Error.outputExists.inj (Except.error.inj h)).symm⟩
  · cases h

end TildeMerge.FileSystem
