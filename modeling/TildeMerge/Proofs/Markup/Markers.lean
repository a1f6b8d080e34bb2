import TildeMerge.Proofs.Markup.LeftoverLines
import TildeMerge.Proofs.Markup.Regions

namespace TildeMerge.Markup

open Text (BeginsAt)

variable {s t v token : Text} {n : Nat}

/-- The token is a leftover of the text, there at the byte offset. -/
def IsListed (token t : Text) (n : Nat) : Prop :=
  StandsAt token t n ∧ leftoverAt t (n, token) ∈ leftovers t

/-- An opener that no closer follows, and with which no closer of a block starts. -/
def LeftOpen (t : Text) (n : Nat) : Prop :=
  BeginsAt opener t n ∧ (∀ k, n < k → ¬ BeginsAt closing t k) ∧ ∀ b ∈ blocks t, b.stop ≠ n + 5

/-- Which markers are among the leftovers of a text. -/
structure MarkersListed (t : Text) : Prop where
  closers : ∀ b ∈ blocks t, ∃ token, closing <+: token ∧ IsListed token t (b.stop - 5)
  starts : ∀ b ∈ blocks t, BeginsAt opener t b.start
  /-- Whether it opens a block or is left over. -/
  openers : ∀ n, BeginsAt opener t n →
    ((∃ token, IsListed token t n) ↔ (t.dropBytes (n + 2)).startsWord = true)

theorem standsAt_append : StandsAt token (s ++ t) (s.size + n) ↔ StandsAt token t n := by
  constructor
  · rintro ⟨w, u, htext, hsize, hu⟩
    obtain ⟨r, rfl⟩ : s <+: w :=
      Text.prefix_of_size_le (List.prefix_append s t) ⟨token ++ u, htext.symm⟩ (by omega)
    rw [List.append_assoc, List.append_cancel_left_eq] at htext
    rw [Text.size_append] at hsize
    exact ⟨r, u, htext, by omega, hu⟩
  · rintro ⟨r, u, rfl, rfl, hu⟩
    exact ⟨s ++ r, u, (List.append_assoc s r (token ++ u)).symm, Text.size_append s r, hu⟩

theorem isListed_iff : IsListed token t n ↔ IsMark token ∧ StandsAt token t n := by
  rw [IsListed, leftovers_eq]
  constructor
  · rintro ⟨hstands, hmem⟩
    obtain ⟨⟨k, mark⟩, hplace, hsame⟩ := List.mem_map.1 hmem
    obtain rfl : mark = token := congrArg Leftover.token hsame
    exact ⟨(((lists_tokensFrom t).mem_iff k mark).1 hplace).1, hstands⟩
  · rintro ⟨hmark, hstands⟩
    exact ⟨hstands, List.mem_map_of_mem (((lists_tokensFrom t).mem_iff n token).2 ⟨hmark, hstands⟩)⟩

theorem isListed_append : IsListed token (s ++ t) (s.size + n) ↔ IsListed token t n := by
  rw [isListed_iff, isListed_iff, standsAt_append]

theorem isListed_tilde : IsListed token (s ++ '~' :: v) s.size ↔
    isMarkup (runs v).first = true ∧ token = '~' :: (runs v).first := by
  have hstart : IsListed token (s ++ '~' :: v) (s.size + 0) ↔
      IsMark token ∧ StandsAt token ('~' :: v) 0 := by
    rw [isListed_append, isListed_iff]
  rw [Nat.add_zero, starts_iff] at hstart
  exact hstart

theorem isListed_opener {r : Text} : IsListed token (s ++ (opener ++ r)) s.size ↔
    r.startsWord = true ∧ token = opener ++ (runs r).first := by
  have hfirst : (runs ('.' :: r)).first = '.' :: (runs r).first := by
    rw [runs_cons_path isPathChar_dot]
  have hmarkup : isMarkup ('.' :: (runs r).first) = r.startsWord := startsWord_first r
  have htilde : IsListed token (s ++ '~' :: '.' :: r) s.size ↔ _ := isListed_tilde
  rw [hfirst, hmarkup] at htilde
  exact htilde

theorem exists_isListed_opener_iff (h : BeginsAt opener t n) :
    (∃ token, IsListed token t n) ↔ (t.dropBytes (n + 2)).startsWord = true := by
  obtain ⟨s, ⟨r, rfl⟩, rfl⟩ := h
  have hbehind : (s ++ opener ++ r).dropBytes (s.size + 2) = r := by
    have hsize : s.size + 2 = (s ++ opener).size := by rw [Text.size_append, size_opener]
    rw [hsize, Text.dropBytes_size_append]
  rw [hbehind, List.append_assoc]
  simp only [isListed_opener, exists_and_left, exists_eq, and_true]

theorem IsListed.isToken_opener (h : IsListed token t n) (hopen : BeginsAt opener t n) :
    IsToken opener token := by
  obtain ⟨s, ⟨r, rfl⟩, rfl⟩ := hopen
  rw [List.append_assoc, isListed_opener] at h
  obtain ⟨hword, rfl⟩ := h
  exact isToken_append.2 ⟨isRun_first r, (startsWord_first r).trans hword⟩

theorem exists_isListed_closing (h : BeginsAt closing t n) :
    ∃ token, closing <+: token ∧ IsListed token t n := by
  obtain ⟨s, ⟨r, rfl⟩, rfl⟩ := h
  have hwhole : s ++ closing ++ r = s ++ '~' :: (closer ++ r) := List.append_assoc s closing r
  refine ⟨closing ++ (runs r).first, List.prefix_append closing _, ?_⟩
  rw [hwhole, isListed_tilde, runs_run_append isRun_closer]
  exact ⟨rfl, rfl⟩

theorem exists_close_of_mem_blocks {b : Block} (hb : b ∈ blocks t) :
    ∃ close, b.stop = close + 5 ∧ BeginsAt closing t close ∧ BeginsAt opener t b.start := by
  have hregions : RegionsFrom t 0 ((blocks t).map Block.span) := regionsFrom_iff.2 rfl
  obtain ⟨close, hstop, hclose, hopen⟩ := hregions.exists_close (List.mem_map_of_mem hb)
  exact ⟨close, hstop, hclose.1.2, hopen⟩

theorem LeftOpen.stop_le (h : LeftOpen t n) : ∀ b ∈ blocks t, b.stop ≤ n := by
  obtain ⟨hopen, hnone, hown⟩ := h
  have hregions : RegionsFrom t 0 ((blocks t).map Block.span) := regionsFrom_iff.2 rfl
  rcases hregions.opener_cases hopen (Nat.zero_le n) with ⟨x, hx, -, hlt⟩ | ⟨hbehind, -⟩
  · -- The closer of the block would follow the opener, or stand around it.
    obtain ⟨b, hb, rfl⟩ := List.mem_map.1 hx
    obtain ⟨close, hstop, hclose, -⟩ := exists_close_of_mem_blocks hb
    have hlt : n < b.stop := hlt
    have hle : close ≤ n := Nat.le_of_not_lt fun hlater ↦ hnone close hlater hclose
    have hne := hown b hb
    obtain ⟨k, rfl⟩ := Nat.exists_eq_add_of_le hle
    have hfar := not_beginsAt_within isRun_tail_closing hclose hopen (by omega)
    rw [size_closing] at hfar
    omega
  · intro b hb
    exact hbehind _ (List.mem_map_of_mem hb)

theorem markersListed (t : Text) : MarkersListed t := by
  refine ⟨?_, ?_, ?_⟩
  · intro b hb
    obtain ⟨close, hstop, hclose, -⟩ := exists_close_of_mem_blocks hb
    rw [hstop, Nat.add_sub_cancel]
    exact exists_isListed_closing hclose
  · intro b hb
    obtain ⟨close, -, -, hopen⟩ := exists_close_of_mem_blocks hb
    exact hopen
  · intro n hopen
    exact exists_isListed_opener_iff hopen

end TildeMerge.Markup
