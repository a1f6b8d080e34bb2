import TildeMerge.Files.Operations
import Mathlib.Data.List.Infix

namespace TildeMerge.FileSystem

variable {fs fs' fs'' : FileSystem} {dir loc : Location} {segments before : List Text}

theorem lookup_putEntry (loc l : Location) (e : Entry) (entries : List (Location × Entry)) :
    (putEntry loc e entries).lookup l = if l = loc then some e else entries.lookup l := by
  induction entries with
  | nil => by_cases h : l = loc <;> simp [putEntry, h]
  | cons entry rest ih =>
    obtain ⟨l', old⟩ := entry
    by_cases h' : l' = loc
    · subst h'
      by_cases h : l = l'
      · simp [putEntry, h]
      · simp [putEntry, List.lookup_cons, beq_eq_false_iff_ne.2 h, h]
    · by_cases h : l = l'
      · simp [putEntry, h, h']
      · simp [putEntry, h', List.lookup_cons, beq_eq_false_iff_ne.2 h, ih]

theorem entry?_put (fs : FileSystem) (hloc : loc ≠ []) (e : Entry) (l : Location) :
    FileSystem.entry? (fs.put loc e) l = if l = loc then some e else fs.entry? l := by
  by_cases hl : l = []
  · simp [FileSystem.entry?, hl, hloc.symm]
  · simp [FileSystem.entry?, hl, put, lookup_putEntry]

theorem walk_append (fs : FileSystem) (dir : Location) (ss ts : List Text) :
    fs.walk dir (ss ++ ts) = fs.walk dir ss >>= fun place ↦ fs.walk place ts := by
  induction ss generalizing dir with
  | nil => rfl
  | cons s ss ih =>
    rw [List.cons_append, walk, walk]
    cases fs.enter dir s with
    | error e => rfl
    | ok place => exact ih place

theorem walk_singleton (fs : FileSystem) (dir : Location) (s : Text) :
    fs.walk dir [s] = fs.enter dir s := by
  rw [walk]
  cases fs.enter dir s <;> rfl

theorem enter_of_directories
    (h : ∀ l, fs.entry? l = some .directory → fs'.entry? l = some .directory) {start place : Location}
    {s : Text} (hs : fs.enter start s = .ok place) : fs'.enter start s = .ok place := by
  rw [← hs]
  unfold enter at hs ⊢
  split
  · rfl
  · split
    · rfl
    · split
      · rfl
      · cases he : fs.entry? (start ++ [s]) with
        | none => simp_all
        | some e =>
          cases e with
          | file bytes => simp_all
          | directory => rw [h _ he]

theorem walk_of_directories
    (h : ∀ l, fs.entry? l = some .directory → fs'.entry? l = some .directory) {start place : Location}
    {ss : List Text} (hs : fs.walk start ss = .ok place) : fs'.walk start ss = .ok place := by
  induction ss generalizing start with
  | nil => exact hs
  | cons s ss ih =>
    rw [walk] at hs ⊢
    cases he : fs.enter start s with
    | error e =>
      rw [he] at hs
      cases hs
    | ok next =>
      rw [he] at hs
      rw [enter_of_directories h he]
      exact ih hs

/-- A place that the segments lead to, all of them or some at the start. -/
def OnTheWay (fs : FileSystem) (dir : Location) (segments : List Text) (loc : Location) : Prop :=
  ∃ lead, lead <+: segments ∧ lead ≠ [] ∧ fs.walk dir lead = .ok loc

/-- What is new in the second file system is directories on the way along the segments. -/
structure Grows (dir : Location) (segments : List Text) (fs fs' : FileSystem) : Prop where
  workingDirectory : fs'.workingDirectory = fs.workingDirectory
  entry : ∀ loc, fs'.entry? loc = fs.entry? loc ∨
    fs.entry? loc = none ∧ fs'.entry? loc = some .directory ∧ fs'.OnTheWay dir segments loc

theorem Grows.refl (dir : Location) (segments : List Text) (fs : FileSystem) :
    Grows dir segments fs fs :=
  ⟨rfl, fun _ ↦ .inl rfl⟩

theorem Grows.directory (h : Grows dir segments fs fs') (loc : Location)
    (hd : fs.entry? loc = some .directory) : fs'.entry? loc = some .directory := by
  rcases h.entry loc with heq | ⟨-, hnew, -⟩
  · rw [heq, hd]
  · exact hnew

theorem Grows.walk {place start : Location} {ss : List Text} (h : Grows dir segments fs fs')
    (hs : fs.walk start ss = .ok place) : fs'.walk start ss = .ok place :=
  walk_of_directories h.directory hs

theorem Grows.onTheWay (h : Grows dir segments fs fs') {start : Location} {ss : List Text}
    (hl : fs.OnTheWay start ss loc) : fs'.OnTheWay start ss loc := by
  obtain ⟨lead, hlead, hne, hw⟩ := hl
  exact ⟨lead, hlead, hne, h.walk hw⟩

theorem Grows.trans (h : Grows dir segments fs fs') (h' : Grows dir segments fs' fs'') :
    Grows dir segments fs fs'' := by
  refine ⟨h'.workingDirectory.trans h.workingDirectory, fun loc ↦ ?_⟩
  rcases h.entry loc with heq | ⟨hnone, hdir, hway⟩
  · rw [← heq]
    exact h'.entry loc
  · exact .inr ⟨hnone, h'.directory loc hdir, h'.onTheWay hway⟩

theorem Grows.mono {more : List Text} (h : Grows dir segments fs fs') (hp : segments <+: more) :
    Grows dir more fs fs' := by
  refine ⟨h.workingDirectory, fun loc ↦ ?_⟩
  rcases h.entry loc with heq | ⟨hnone, hdir, lead, hlead, hne, hw⟩
  · exact .inl heq
  · exact .inr ⟨hnone, hdir, lead, hlead.trans hp, hne, hw⟩

theorem Grows.of_step {above : Location} {last : Text} (h : Grows above [last] fs fs')
    (hw : fs.walk dir before = .ok above) : Grows dir (before ++ [last]) fs fs' := by
  refine ⟨h.workingDirectory, fun loc ↦ ?_⟩
  rcases h.entry loc with heq | ⟨hnone, hdir, lead, hlead, hne, hl⟩
  · exact .inl heq
  · refine .inr ⟨hnone, hdir, before ++ lead, ?_, by simp [hne], ?_⟩
    · exact (List.prefix_append_right_inj before).2 hlead
    · rw [walk_append, h.walk hw]
      exact hl

theorem follow_named {above : Location} {name : Text}
    (h : fs.follow dir segments = .ok (.named above name)) :
    segments = segments.dropLast ++ [name] ∧ fs.walk dir segments.dropLast = .ok above ∧
      name ≠ ['.'] ∧ name ≠ ['.', '.'] ∧ name.size ≤ maxName := by
  unfold follow at h
  cases hlast : segments.getLast? with
  | none =>
    rw [hlast] at h
    cases h
  | some last =>
    simp only [hlast] at h
    have hsplit : segments = segments.dropLast ++ [last] :=
      (List.dropLast_append_getLast? last hlast).symm
    cases hw : fs.walk dir segments.dropLast with
    | error e =>
      rw [hw] at h
      cases h
    | ok place =>
      simp only [hw, bind, Except.bind] at h
      split at h
      · cases he : fs.enter place last <;> rw [he] at h <;> cases h
      · rename_i hdots
        split at h
        · cases h
        · rename_i hsize
          obtain ⟨rfl, rfl⟩ := Target.named.inj (Except.ok.inj h)
          simp only [Bool.or_eq_true, decide_eq_true_eq, not_or] at hdots
          exact ⟨hsplit, rfl, hdots.1, hdots.2, Nat.le_of_not_lt hsize⟩

theorem walk_put_directory {above : Location} {name : Text}
    (h : fs.follow dir segments = .ok (.named above name)) :
    (fs.put (above ++ [name]) .directory).walk dir segments = .ok (above ++ [name]) := by
  obtain ⟨hsplit, hw, hdot, hdots, hsize⟩ := follow_named h
  have hne : above ++ [name] ≠ [] := by simp
  have hentry := fs.entry?_put hne .directory
  have hkept (l : Location) (hl : fs.entry? l = some .directory) :
      FileSystem.entry? (fs.put (above ++ [name]) .directory) l = some .directory := by
    rw [hentry, hl, ite_self]
  rw [hsplit, walk_append, walk_of_directories hkept hw]
  simp [bind, Except.bind, walk_singleton, enter, hdot, hdots, hsize, hentry]

theorem makeDirectory_eq_ok (h : fs.makeDirectory dir segments = .ok fs') :
    ∃ above name, fs.follow dir segments = .ok (.named above name) ∧
      fs.entry? (above ++ [name]) = none ∧ fs' = fs.put (above ++ [name]) .directory := by
  unfold makeDirectory at h
  cases hf : fs.follow dir segments with
  | error e =>
    rw [hf] at h
    cases h
  | ok target =>
    cases target with
    | reached place =>
      rw [hf] at h
      cases h
    | named above name =>
      simp only [hf, bind, Except.bind] at h
      cases he : fs.entry? (above ++ [name]) with
      | some e =>
        rw [he] at h
        cases h
      | none =>
        rw [he] at h
        exact ⟨above, name, rfl, he, (Except.ok.inj h).symm⟩

theorem makeDirectory_grows (h : fs.makeDirectory dir segments = .ok fs') :
    Grows dir segments fs fs' ∧ ∃ place, fs'.walk dir segments = .ok place := by
  obtain ⟨above, name, hf, hnone, rfl⟩ := makeDirectory_eq_ok h
  have hwalk := walk_put_directory hf
  refine ⟨⟨rfl, fun loc ↦ ?_⟩, _, hwalk⟩
  rw [fs.entry?_put (by simp)]
  by_cases hloc : loc = above ++ [name]
  · subst hloc
    have hne : segments ≠ [] := by
      rw [(follow_named hf).1]
      simp
    exact .inr ⟨hnone, if_pos rfl, segments, List.prefix_rfl, hne, hwalk⟩
  · exact .inl (if_neg hloc)

theorem ensureDirectory_grows (fs : FileSystem) (dir : Location) (segments : List Text) :
    Grows dir segments fs (fs.ensureDirectory dir segments).1 ∧
    (∀ place, (fs.ensureDirectory dir segments).2 = .ok place →
      (fs.ensureDirectory dir segments).1.walk dir segments = .ok place) ∧
    (∀ e, (fs.ensureDirectory dir segments).2 = .error e →
      (fs.ensureDirectory dir segments).1 = fs) := by
  rw [ensureDirectory_eq]
  cases hm : fs.makeDirectory dir segments with
  | ok made =>
    obtain ⟨hgrows, place, hw⟩ := makeDirectory_grows hm
    refine ⟨hgrows, fun _ h ↦ h, fun e he ↦ ?_⟩
    dsimp only at he
    rw [hw] at he
    cases he
  | error e =>
    cases hw : fs.walk dir segments with
    | ok place =>
      refine ⟨.refl dir segments fs, fun place' h ↦ ?_, fun _ _ ↦ rfl⟩
      rw [← h, hw]
    | error e' =>
      refine ⟨.refl dir segments fs, fun place h ↦ ?_, fun _ _ ↦ rfl⟩
      cases h

theorem makeDirectories_grows (fs : FileSystem) (dir : Location) (reversed : List Text) :
    Grows dir reversed.reverse fs (fs.makeDirectories dir reversed).1 ∧
    (∀ place, (fs.makeDirectories dir reversed).2 = .ok place →
      (fs.makeDirectories dir reversed).1.walk dir reversed.reverse = .ok place) := by
  induction reversed with
  | nil => exact ⟨.refl dir [] fs, fun place h ↦ h⟩
  | cons last before ih =>
    obtain ⟨hgrows, hplace, hsame⟩ := ensureDirectory_grows fs dir (last :: before).reverse
    rw [makeDirectories_cons]
    split
    · rename_i fs₁ heq
      rw [heq] at hsame
      obtain rfl : fs₁ = fs := hsame _ rfl
      obtain ⟨hbefore, hway⟩ := ih
      rw [List.reverse_cons]
      rcases habove : fs₁.makeDirectories dir before with ⟨fs₂, above | above⟩
      · rw [habove] at hbefore
        refine ⟨hbefore.mono (List.prefix_append _ _), fun place h ↦ ?_⟩
        cases h
      · rw [habove] at hbefore hway
        have hw := hway above rfl
        obtain ⟨hstep, hlast, -⟩ := ensureDirectory_grows fs₂ above [last]
        refine ⟨(hbefore.mono (List.prefix_append _ _)).trans (hstep.of_step hw), fun place h ↦ ?_⟩
        rw [walk_append, hstep.walk hw]
        exact hlast place h
    · exact ⟨hgrows, hplace⟩

end TildeMerge.FileSystem
