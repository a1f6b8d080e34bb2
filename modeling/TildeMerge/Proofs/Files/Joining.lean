import TildeMerge.Proofs.Files.Components

namespace TildeMerge.Path

variable {p base name s : Text} {texts parts : List Text} {c : Component}

/-- The path that goes on from each text to the next one. -/
def joined (texts : List Text) : Text :=
  texts.foldl push []

def withExtension (text : Text) : Option Text → Text
  | none => text
  | some extension => text ++ '.' :: extension

theorem infix_intercalate (sep : Text) (h : s ∈ parts) : s <:+: sep.intercalate parts := by
  induction parts with
  | nil => cases h
  | cons part rest ih =>
    cases rest with
    | nil =>
      obtain rfl := List.mem_singleton.1 h
      exact List.intercalate_singleton ▸ List.infix_rfl
    | cons next rest =>
      rw [List.intercalate_cons_cons]
      rcases List.mem_cons.1 h with rfl | h
      · rw [List.append_assoc]
        exact (List.prefix_append s _).isInfix
      · exact (ih h).trans (List.suffix_append _ _).isInfix

theorem segment_of_mem_components (h : .normal name ∈ components p) :
    name <:+: p ∧ name ≠ [] ∧ '/' ∉ name ∧ name ≠ ['.'] ∧ name ≠ ['.', '.'] := by
  have hrest : .normal name ∈ ofSegments (segments p) := by
    rw [components_eq, List.mem_append] at h
    refine h.resolve_left fun hanchor ↦ ?_
    unfold anchor at hanchor
    split at hanchor
    · cases List.mem_singleton.1 hanchor
    · split at hanchor
      · cases List.mem_singleton.1 hanchor
      · cases hanchor
  obtain ⟨s, hs, hname⟩ := List.mem_map.1 hrest
  obtain ⟨hsegment, hdot⟩ := List.mem_filter.1 hs
  obtain ⟨hsplit, hempty⟩ := List.mem_filter.1 hsegment
  unfold ofSegment at hname
  split at hname
  · cases hname
  · rename_i hparent
    obtain rfl := Component.normal.inj hname
    have hpart := infix_intercalate ['/'] hsplit
    rw [List.intercalate_splitOn] at hpart
    exact ⟨hpart, by simpa using hempty, slash_notMem_of_mem_splitOn hsplit, by simpa using hdot,
      hparent⟩

theorem components_name (hne : name ≠ []) (hslash : '/' ∉ name) (hdot : name ≠ ['.'])
    (hparent : name ≠ ['.', '.']) : components name = [.normal name] := by
  obtain ⟨c, q, rfl⟩ := List.exists_cons_of_ne_nil hne
  have hc : c ≠ '/' := fun h ↦ hslash (h ▸ List.mem_cons_self)
  have habs : isAbsolute (c :: q) = false := by simpa [isAbsolute] using hc
  have hsegments : segments (c :: q) = [c :: q] := by
    have h := segments_intercalate (List.forall_mem_singleton.2 hslash)
    rwa [List.intercalate_singleton] at h
  rw [components_eq, anchor, habs, hsegments]
  simp [hdot, hparent, ofSegments, ofSegment]

theorem components_foldl_push (base : Text) (h : ∀ t ∈ texts, anchor t = []) :
    components (texts.foldl push base) = components base ++ texts.flatMap components := by
  induction texts generalizing base with
  | nil => exact (List.append_nil _).symm
  | cons t texts ih =>
    obtain ⟨ht, hrest⟩ := List.forall_mem_cons.1 h
    rw [List.foldl_cons, ih _ hrest, components_push base ht, List.flatMap_cons, List.append_assoc]

theorem components_text_of_mem_ofSegments (h : c ∈ ofSegments (segments p)) :
    components c.text = [c] := by
  have hmem : c ∈ components p := by
    rw [components_eq]
    exact List.mem_append_right _ h
  rcases mem_ofSegments h with rfl | ⟨name, rfl⟩
  · decide
  · obtain ⟨-, hne, hslash, hdot, hparent⟩ := segment_of_mem_components hmem
    exact components_name hne hslash hdot hparent

theorem components_joined (p : Text) :
    components (joined ((components p).map Component.text)) = components p := by
  have hstart : components (((anchor p).map Component.text).foldl push []) = anchor p := by
    unfold anchor
    split
    · decide
    · split <;> decide
  have htexts : ∀ c ∈ ofSegments (segments p), components c.text = [c] :=
    fun c ↦ components_text_of_mem_ofSegments
  have hfree : ∀ t ∈ (ofSegments (segments p)).map Component.text, anchor t = [] := by
    rw [List.forall_mem_map]
    intro c hc
    rcases mem_ofSegments hc with rfl | ⟨name, rfl⟩
    · rfl
    · exact anchor_eq_nil (htexts _ hc)
  have hrest : ((ofSegments (segments p)).map Component.text).flatMap components =
      ofSegments (segments p) := by
    rw [List.flatMap_map]
    exact (List.flatMap_congr htexts).trans (List.flatMap_singleton' _)
  -- A push of the start of a path takes the place of what is there, so it is not one of these texts.
  rw [components_eq p, List.map_append, joined, List.foldl_append, components_foldl_push _ hfree,
    hrest, hstart]

theorem withExtension_splitExtension (name : Text) :
    withExtension (splitExtension name).1 (splitExtension name).2 = name := by
  unfold splitExtension
  split
  · rename_i d c before hdrop
    obtain rfl : d = '.' := by
      have hne : name.reverse.dropWhile (· != '.') ≠ [] := by simp [hdrop]
      simpa [hdrop] using List.head_dropWhile_not (· != '.') hne
    obtain ⟨after, hafter⟩ : '.' :: c :: before <:+ name.reverse := hdrop ▸ List.dropWhile_suffix _
    have hname : name = (c :: before).reverse ++ ['.'] ++ after.reverse := by
      have h := congrArg List.reverse hafter
      simpa using h.symm
    have hlength : before.length + 2 = ((c :: before).reverse ++ ['.']).length := by simp
    have hextension : name.drop (before.length + 2) = after.reverse := by
      rw [hlength, hname, List.drop_left]
    rw [hextension]
    exact (List.append_cons _ _ _).trans hname.symm
  · rfl

end TildeMerge.Path
