import TildeMerge.Proofs.Composition
import TildeMerge.Proofs.Markup.Markers
import TildeMerge.Proofs.Replacement

namespace TildeMerge

open Markup
open Text (BeginsAt)

variable {e : Engine} {record : Value} {t u x : Text} {n : Nat}

/-- What a render of the template `t` tells of openers that are left, where `u` is the text that the first
pass makes of it, and `x` is the result. -/
structure UnclosedTold (e : Engine) (record : Value) (t u x : Text) : Prop where
  warnings : ∃ places,
    Lists (fun token ↦ IsToken opener token ∧ token ≠ closing) (tail (sections u)) places ∧
      (e.render t record).log = (e.scalarPass t record).log ++
        .blockPass :: ((blocks u).mapM (e.handOver record)).log ++ places.map fun p ↦ .unclosed p.2
  /-- The opener stands in the result, as far from its end. -/
  left : ∀ n, LeftOpen u n → ∃ k, k + u.size = n + x.size ∧ BeginsAt opener x k ∧
    ((∃ token, IsListed token x k) ↔ (u.dropBytes (n + 2)).startsWord = true) ∧
    ∀ token, IsListed token x k → token ≠ closing → .unclosed token ∈ (e.render t record).log

theorem exists_tail (h : (e.blockPass u record).result = .ok x) :
    ∃ v y, u = v ++ tail (sections u) ∧ x = y ++ tail (sections u) ∧
      ∀ n, (∀ b ∈ blocks u, b.stop ≤ n) → v.size ≤ n := by
  obtain ⟨front, hsections, hfront⟩ := exists_front (sections u)
  have htext : u = front.flatMap Section.text ++ tail (sections u) := by
    have hall := congrArg (List.flatMap Section.text) hsections
    rw [sections_text, List.flatMap_append, List.flatMap_map] at hall
    exact hall.trans (congrArg _ (List.flatMap_singleton' _))
  rw [blockPass_result, hsections, renderSections_append, renderSections_plain,
    Logged.bind_result, bind_eq_ok] at h
  obtain ⟨y, -, hx⟩ := h
  refine ⟨_, y, htext, (Except.ok.inj hx).symm, ?_⟩
  intro n hbehind
  rcases hfront with rfl | ⟨rest, region, rfl⟩
  · exact Nat.zero_le n
  · have hlast : Block.ofRegion (0 + Text.size (rest.flatMap Section.text)) region ∈ blocks u := by
      rw [blocks, hsections, locateBlocks_append, locateBlocks_append]
      refine List.mem_append_left _ (List.mem_append_right _ ?_)
      exact List.mem_cons_self
    have hstop := hbehind _ hlast
    rw [List.flatMap_append, Text.size_append]
    simpa [Block.ofRegion, Section.text] using hstop

theorem exists_lists_unclosed (t : Text) : ∃ places,
    Lists (fun token ↦ IsToken opener token ∧ token ≠ closing) t places ∧
      (leftovers t).filter Leftover.isUnclosed = places.map (leftoverAt t) := by
  have hunclosed (token : Text) :
      IsMark token ∧ (token.take 2 == opener && token != closing) = true ↔
        IsToken opener token ∧ token ≠ closing := by
    rw [← isMark_and_dotted_iff, Bool.and_eq_true, beq_iff_eq, bne_iff_ne, ← and_assoc,
      List.isPrefixOf_iff_prefix, List.prefix_iff_eq_take, @eq_comm _ opener]
    rfl
  have h := (lists_tokensFrom t).filter fun token ↦ token.take 2 == opener && token != closing
  simp only [hunclosed] at h
  exact ⟨_, h, filter_leftovers (fun token ↦ token.take 2 == opener && token != closing) t⟩

theorem exists_warnings (hu : (e.scalarPass t record).result = .ok u)
    (hx : (e.blockPass u record).result = .ok x) : ∃ places,
      Lists (fun token ↦ IsToken opener token ∧ token ≠ closing) (tail (sections u)) places ∧
        (e.render t record).log = (e.scalarPass t record).log ++
          .blockPass :: ((blocks u).mapM (e.handOver record)).log ++
            places.map fun p ↦ .unclosed p.2 := by
  obtain ⟨places, hlists, hplaces⟩ := exists_lists_unclosed (tail (sections u))
  refine ⟨places, hlists, ?_⟩
  rw [Engine.render, Logged.bind_eq_of_ok _ hu, blockPass_log hx, reportUnclosed_log, hplaces,
    List.map_map, List.append_assoc]
  rfl

theorem unclosedTold (hu : (e.scalarPass t record).result = .ok u)
    (hx : (e.blockPass u record).result = .ok x) : UnclosedTold e record t u x := by
  obtain ⟨places, hlists, hlog⟩ := exists_warnings hu hx
  refine ⟨⟨places, hlists, hlog⟩, ?_⟩
  intro n hn
  obtain ⟨v, y, htext, hresult, hbehind⟩ := exists_tail hx
  obtain ⟨j, rfl⟩ := Nat.exists_eq_add_of_le (hbehind n hn.stop_le)
  generalize tail (sections u) = w at hlists htext hresult
  subst htext hresult
  have hopen : BeginsAt opener w j := Text.beginsAt_append.1 hn.1
  have hsame (token : Text) :
      IsListed token (y ++ w) (y.size + j) ↔ IsListed token (v ++ w) (v.size + j) := by
    rw [isListed_append, isListed_append]
  refine ⟨y.size + j, ?_, Text.beginsAt_append.2 hopen, ?_, ?_⟩
  · simp only [Text.size_append]
    omega
  · simp only [hsame]
    exact exists_isListed_opener_iff hn.1
  · intro token hlisted hne
    have hlisted := isListed_append.1 hlisted
    have hplace : (j, token) ∈ places :=
      (hlists.mem_iff j token).2 ⟨⟨hlisted.isToken_opener hopen, hne⟩, hlisted.1⟩
    rw [hlog]
    refine List.mem_append_right _ ?_
    exact List.mem_map_of_mem hplace

/-- The closers of all blocks are among the leftovers of a text, and so is every opener that a word
character follows, but no other one. A render leaves openers without a closer in their places, and warns
of those that are listed. -/
theorem markers_told (t : Text) : MarkersListed t ∧ ∀ (e : Engine) (record : Value) (u x : Text),
    (e.scalarPass t record).result = .ok u → (e.render t record).result = .ok x →
      UnclosedTold e record t u x := by
  refine ⟨markersListed t, ?_⟩
  intro e record u x hu hx
  obtain ⟨u', hu', hx'⟩ := render_eq_ok.1 hx
  rw [hu] at hu'
  obtain rfl := Except.ok.inj hu'
  exact unclosedTold hu hx'

def closedThenOpen : Text :=
  ['~', '.', 'f', 'o', 'r', ' ', '.', 'i'] ++ closing ++ ['~', '.', 'f', 'o', 'r']

theorem markers_told_closedThenOpen :
    (({} : Engine).scalarPass closedThenOpen .null).result = .ok closedThenOpen ∧
      (({} : Engine).render closedThenOpen .null).result = .ok ['~', '.', 'f', 'o', 'r'] ∧
      LeftOpen closedThenOpen 13 ∧ IsListed ['~', '.', 'f', 'o', 'r'] ['~', '.', 'f', 'o', 'r'] 0 ∧
      .unclosed ['~', '.', 'f', 'o', 'r'] ∈ (({} : Engine).render closedThenOpen .null).log := by
  have hu : (({} : Engine).scalarPass closedThenOpen .null).result = .ok closedThenOpen := rfl
  have hx : (({} : Engine).render closedThenOpen .null).result = .ok ['~', '.', 'f', 'o', 'r'] := rfl
  have hsize : closedThenOpen.size = 18 := by decide
  have hleft : LeftOpen closedThenOpen 13 := by
    refine ⟨⟨closedThenOpen.take 13, by decide, rfl⟩, ?_, by decide⟩
    intro k hk hclose
    have hle := hclose.size_le
    rw [size_closing, hsize] at hle
    omega
  have hlisted : IsListed ['~', '.', 'f', 'o', 'r'] ['~', '.', 'f', 'o', 'r'] 0 :=
    ⟨⟨[], [], rfl, rfl, endsRun_nil⟩, by decide⟩
  obtain ⟨-, htold⟩ := markers_told closedThenOpen
  obtain ⟨k, hk, -, -, hwarned⟩ := (htold {} .null _ _ hu hx).left 13 hleft
  have hstart : k = 0 := by
    have hresult : Text.size ['~', '.', 'f', 'o', 'r'] = 5 := by decide
    rw [hsize, hresult] at hk
    omega
  rw [hstart] at hwarned
  exact ⟨hu, hx, hleft, hlisted, hwarned _ hlisted (by decide)⟩

def spacedOpener : Text :=
  ['~', '.', ' ', '.', 'f', 'o', 'r', ' ', '.', 'i', '\n', '.', 'x']

/-- A spaced opener works like any other, but it is a leftover neither of its block nor alone, and a render
leaves it without a warning. -/
theorem not_isListed_spacedOpener :
    (∃ b ∈ blocks (spacedOpener ++ '\n' :: closing), b.start = 0 ∧
      b.head = some ⟨['f', 'o', 'r'], some ['i']⟩ ∧
      ¬ ∃ token, IsListed token (spacedOpener ++ '\n' :: closing) b.start) ∧
    leftovers (spacedOpener ++ '\n' :: closing) = [⟨3, closing⟩] ∧
    LeftOpen spacedOpener 0 ∧ leftovers spacedOpener = [] ∧
    (({} : Engine).render spacedOpener .null).result = .ok spacedOpener ∧
    (({} : Engine).render spacedOpener .null).warnings = [] := by
  have hopen : BeginsAt opener (spacedOpener ++ '\n' :: closing) 0 := ⟨[], by decide, rfl⟩
  have hunlisted : ¬ ∃ token, IsListed token (spacedOpener ++ '\n' :: closing) 0 := by
    rw [exists_isListed_opener_iff hopen]
    decide
  have hleft : LeftOpen spacedOpener 0 := by
    refine ⟨⟨[], by decide, rfl⟩, ?_, by decide⟩
    intro k _
    have hnone : toCloser spacedOpener = none := by decide
    exact not_beginsAt_of_toCloser hnone
  exact ⟨⟨.ofRegion 0 (spacedOpener ++ '\n' :: closing), by decide, rfl, by decide, hunlisted⟩,
    by decide, hleft, by decide, rfl, rfl⟩

end TildeMerge
