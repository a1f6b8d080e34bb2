import TildeMerge.Proofs.Files.Histories
import TildeMerge.Proofs.Text.Encodings

namespace TildeMerge

def Encoding.write (e : Encoding) (p : Text) (mode : WriteMode) (t : Text) : Write :=
  ⟨p, e.encode t, mode⟩

namespace FileSystem

open TildeMerge.Path

variable {fs : FileSystem} {p name : Text} {dir loc above : Location} {ss : List Text}
  {old bytes : Bytes} {w : Write}

theorem makeDirectory_of_walk (h : fs.walk dir ss = .ok loc) :
    ∃ cause, fs.makeDirectory dir ss = .error cause := by
  cases hm : fs.makeDirectory dir ss with
  | error cause => exact ⟨cause, rfl⟩
  | ok made =>
    obtain ⟨above, name, hfollow, hnone, -⟩ := makeDirectory_eq_ok hm
    obtain ⟨hsplit, hw, hdot, hdots, hsize⟩ := follow_named hfollow
    have hmissing : fs.enter above name = .error .notFound := by
      rw [enter, if_neg hdot, if_neg hdots, if_neg (Nat.not_lt.2 hsize), hnone]
    rw [hsplit, walk_append, hw] at h
    have hentered := (walk_singleton fs above name).symm.trans h
    rw [hmissing] at hentered
    cases hentered

theorem makeDirectories_of_walk {reversed : List Text}
    (h : fs.walk dir reversed.reverse = .ok loc) :
    fs.makeDirectories dir reversed = (fs, .ok loc) := by
  cases reversed with
  | nil =>
    obtain rfl : dir = loc := Except.ok.inj h
    rfl
  | cons last before =>
    obtain ⟨cause, hm⟩ := makeDirectory_of_walk h
    have hensure : fs.ensureDirectory dir (last :: before).reverse = (fs, .ok loc) := by
      rw [ensureDirectory_eq, hm, h]
    rw [makeDirectories_cons, hensure]

theorem checkPath_eq_ok (h : checkPath p = .ok ()) : '\x00' ∉ p ∧ p.size ≤ maxPath := by
  unfold checkPath at h
  split at h
  · cases h
  · rename_i hnul
    split at h
    · cases h
    · split at h
      · cases h
      · rename_i hsize
        exact ⟨by simpa using hnul, Nat.le_of_not_lt hsize⟩

theorem checkPath_parent (h : checkPath p = .ok ()) (hp : parent p ≠ []) :
    checkPath (parent p) = .ok () := by
  obtain ⟨rest, hrest⟩ := parent_isPrefix p
  obtain ⟨hnul, hsize⟩ := checkPath_eq_ok h
  rw [← hrest] at hnul hsize
  have hshort : (parent p).size ≤ maxPath := by
    rw [Text.size_append] at hsize
    exact Nat.le_of_add_right_le hsize
  have hclean : '\x00' ∉ parent p := fun hmem ↦ hnul (List.mem_append_left rest hmem)
  simp [checkPath, hclean, hp, Nat.not_lt.2 hshort]

theorem makeParent_of_walk (hp : EndsInName p name) (hcheck : checkPath p = .ok ())
    (hw : fs.walk (fs.startOf p) (segments p).dropLast = .ok above) :
    fs.makeParent p = (fs, .ok ()) := by
  by_cases hempty : parent p = []
  · exact makeParent_of_empty hempty
  · obtain ⟨before, hsplit, -⟩ := hp.segments_eq
    have hstart : fs.startOf p = fs.startOf (parent p) := by
      rw [startOf, startOf, isAbsolute_parent hempty]
    rw [hsplit, List.dropLast_concat, walk_append, hstart] at hw
    cases hparent : fs.walk (fs.startOf (parent p)) (segments (parent p)) with
    | error cause =>
      rw [hparent] at hw
      cases hw
    | ok place =>
      rw [← List.reverse_reverse (segments (parent p))] at hparent
      rw [makeParent_of_path hempty (checkPath_parent hcheck hempty),
        makeDirectories_of_walk hparent]
      rfl

/-- The path leads to a file that holds the bytes. -/
structure Holds (fs : FileSystem) (p : Text) (bytes : Bytes) : Prop where
  check : checkPath p = .ok ()
  slash : endsInSlash p = false
  denotes : fs.Denotes p (fs.place p)
  file : fs.fileAt (fs.place p) = some bytes

namespace Holds

theorem read (h : fs.Holds p bytes) : fs.read p = .ok bytes :=
  read_of_denotes h.check h.slash h.denotes h.file

theorem makeParent (h : fs.Holds p bytes) : fs.makeParent p = (fs, .ok ()) := by
  obtain ⟨above, name, hfollow, -⟩ := h.denotes
  obtain ⟨hsplit, hw, hdot, hdots, -⟩ := follow_named hfollow
  have hlast : (segments p).getLast? = some name := by
    rw [hsplit, List.getLast?_concat]
  exact makeParent_of_walk ⟨h.slash, hlast, hdot, hdots⟩ h.check hw

theorem of_write (h : (fs.write w).2 = .ok ()) :
    (fs.write w).1.Holds w.path (w.mode.content (fs.fileAt (fs.place w.path)) w.bytes) := by
  obtain ⟨stored, hs⟩ := store_of_write_eq_ok h
  obtain ⟨hcheck, hslash, -⟩ := store_eq_ok hs
  obtain ⟨hdenotes, -, hfiles⟩ := write_eq_ok h
  have hplace : (fs.write w).1.place w.path = fs.place w.path :=
    place_congr (fs.write_workingDirectory w) w.path
  refine ⟨hcheck, hslash, ?_, ?_⟩
  · rwa [hplace]
  · rw [hplace, hfiles, if_pos rfl]
    rfl

theorem append (h : fs.Holds p old) (bytes : Bytes) :
    (fs.write ⟨p, bytes, .append⟩).2 = .ok () ∧
      (fs.write ⟨p, bytes, .append⟩).1.Holds p (old ++ bytes) := by
  have hentry : fs.entry? (fs.place p) = some (.file old) := by
    have hfile := h.file
    unfold fileAt at hfile
    split at hfile
    · rename_i content he
      rw [he, Option.some.inj hfile]
    · cases hfile
  have hmade : (fs.makeParent (Write.path ⟨p, bytes, .append⟩)).2 = .ok () := by
    rw [h.makeParent]
  have hok : (fs.write ⟨p, bytes, .append⟩).2 = .ok () := by
    rw [write_of_makeParent_ok hmade, storeOutcome_result, h.makeParent,
      store_of_denotes h.check h.slash h.denotes, hentry]
    rfl
  have hholds := of_write hok
  rw [h.file] at hholds
  exact ⟨hok, hholds⟩

theorem appendAll (h : fs.Holds p old) (more : List Bytes) :
    (∀ outcome ∈ (fs.writeAll (more.map (⟨p, ·, .append⟩))).2, outcome = .ok ()) ∧
      (fs.writeAll (more.map (⟨p, ·, .append⟩))).1.Holds p (old ++ more.flatten) := by
  induction more generalizing fs old with
  | nil =>
    rw [List.flatten_nil, List.append_nil]
    exact ⟨nofun, h⟩
  | cons bytes more ih =>
    obtain ⟨hok, hholds⟩ := h.append bytes
    obtain ⟨hrest, hall⟩ := ih hholds
    refine ⟨List.forall_mem_cons.2 ⟨hok, hrest⟩, ?_⟩
    rw [List.flatten_cons, ← List.append_assoc]
    exact hall

end Holds

/-- After a text has been written to a file, all texts that are appended in the same encoding arrive, and
the bytes are those of the texts with the joint of the encoding between them. They are the bytes of the
texts put together unless something is appended with marks. -/
theorem writeAll_texts (fs : FileSystem) (p : Text) (e : Encoding) (t : Text) (ts : List Text)
    (h : (fs.write (e.write p .overwrite t)).2 = .ok ()) :
    (∀ outcome ∈ (fs.writeAll (e.write p .overwrite t :: ts.map (e.write p .append))).2,
        outcome = .ok ()) ∧
      (fs.writeAll (e.write p .overwrite t :: ts.map (e.write p .append))).1.read p =
        .ok (e.encode (e.joint.intercalate (t :: ts))) ∧
      (e.encode (e.joint.intercalate (t :: ts)) = e.encode (t :: ts).flatten ↔
        e ≠ .utf8Bom ∨ ts = []) := by
  have hfirst : (fs.write (e.write p .overwrite t)).1.Holds p (e.encode t) := Holds.of_write h
  obtain ⟨hrest, hall⟩ := hfirst.appendAll (ts.map e.encode)
  have hmap : (ts.map e.encode).map (⟨p, ·, .append⟩) = ts.map (e.write p .append) := by
    rw [List.map_map]
    rfl
  rw [hmap] at hrest hall
  refine ⟨List.forall_mem_cons.2 ⟨h, hrest⟩, ?_, ?_⟩
  · rw [e.encode_intercalate, List.flatMap_def]
    exact hall.read
  · rw [e.encode_intercalate]
    exact e.encode_flatten_iff t ts

theorem writeAll_texts_surrogates :
    (directoryOnly.write (Encoding.utf16Little.write ['d', '/', 'o'] .overwrite ['a'])).2 = .ok () ∧
      (directoryOnly.writeAll (Encoding.utf16Little.write ['d', '/', 'o'] .overwrite ['a'] ::
        [['😀'], ['b']].map (Encoding.utf16Little.write ['d', '/', 'o'] .append))).1.read
          ['d', '/', 'o'] = .ok (Encoding.utf16Little.encode ['a', '😀', 'b']) := by
  have hfirst : (directoryOnly.write
      (Encoding.utf16Little.write ['d', '/', 'o'] .overwrite ['a'])).2 = .ok () := by
    decide +kernel
  obtain ⟨-, hread, hbytes⟩ := writeAll_texts directoryOnly ['d', '/', 'o'] .utf16Little ['a']
    [['😀'], ['b']] hfirst
  refine ⟨hfirst, hread.trans ?_⟩
  rw [hbytes.2 (.inl nofun)]
  rfl

/-- A text with a mark that is appended to another one has its mark in the middle of the file. -/
theorem writeAll_texts_marks :
    (directoryOnly.writeAll [Encoding.utf8Bom.write ['o'] .overwrite ['a'],
        Encoding.utf8Bom.write ['o'] .append ['b']]).2 = [.ok (), .ok ()] ∧
      (directoryOnly.writeAll [Encoding.utf8Bom.write ['o'] .overwrite ['a'],
        Encoding.utf8Bom.write ['o'] .append ['b']]).1.read ['o'] =
          .ok [0xEF, 0xBB, 0xBF, 97, 0xEF, 0xBB, 0xBF, 98] ∧
      Encoding.utf8Bom.encode ['a', 'b'] ≠ [0xEF, 0xBB, 0xBF, 97, 0xEF, 0xBB, 0xBF, 98] := by
  decide +kernel

end FileSystem

end TildeMerge
