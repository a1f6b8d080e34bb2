import TildeMerge.Proofs.Markup.Regions
import TildeMerge.Proofs.Markup.Shapes
import TildeMerge.Proofs.Text.Lines
import Mathlib.Data.List.DropRight

namespace TildeMerge.Markup

variable {s t region : Text} {tokens : List Text}

/-- The head line goes on to the end of the block, so that the closer stands on it. -/
def Block.IsOneLine (b : Block) : Prop :=
  b.start + b.headLine.size = b.stop

instance : DecidablePred Block.IsOneLine := fun b ↦
  inferInstanceAs (Decidable (b.start + b.headLine.size = b.stop))

/-- The head line without the closer of the block. -/
def Block.openingLine (b : Block) : Text :=
  if b.IsOneLine then b.headLine.rdrop closing.length else b.headLine

def Head.ofTokens : List Text → Option Head
  | [] => none
  | [token] => some (.ofToken token)
  | directive :: collection :: _ => some ⟨directive, some collection⟩

/-- What a line with these dotted tokens asks for if a closer stands behind them. -/
def Head.beforeCloser : List Text → Head
  | [] => ⟨closer.tail, none⟩
  | [token] => ⟨token, some closer.tail⟩
  | directive :: collection :: _ => ⟨directive, some collection⟩

theorem parse_eq_ofTokens (line : Text) : Head.parse line = Head.ofTokens (itemPaths line) := by
  rw [Head.parse, itemPaths]
  split <;> simp_all [Head.ofTokens]

theorem ofTokens_append_closer (tokens : List Text) :
    Head.ofTokens (tokens ++ [closer.tail]) = some (Head.beforeCloser tokens) := by
  match tokens with
  | [] => rfl
  | [_] => rfl
  | _ :: _ :: _ => rfl

theorem ofToken_ne (token collection : Text) : Head.ofToken token ≠ ⟨token, some collection⟩ := by
  intro h
  unfold Head.ofToken at h
  split at h
  · rename_i hrest
    have hall := (Head.mk.inj h).1
    rw [List.takeWhile_eq_self_iff, ← List.dropWhile_eq_nil_iff, hrest] at hall
    cases hall
  · cases (Head.mk.inj h).2

theorem beforeCloser_eq_ofTokens_iff :
    some (Head.beforeCloser tokens) = Head.ofTokens tokens ↔ 2 ≤ tokens.length := by
  match tokens with
  | [] => simp [Head.ofTokens]
  | [token] =>
    have hne := ofToken_ne token closer.tail
    simp [Head.ofTokens, Head.beforeCloser, Ne.symm hne]
  | _ :: _ :: _ => simp [Head.ofTokens, Head.beforeCloser]

theorem parse_append_closing (s : Text) :
    Head.parse (s ++ closing) = some (Head.beforeCloser (itemPaths s)) := by
  have hends : EndsRun closing := by decide
  have hcloser : itemPaths closing = [closer.tail] := by decide
  rw [parse_eq_ofTokens, itemPaths_append s hends, hcloser, ofTokens_append_closer]

theorem exists_closing_of_mem_sections (h : .block region ∈ sections t) :
    ∃ s, region = s ++ closing := by
  induction t using sections_induction with
  | nil => cases h
  | plain c t ho ih =>
    rw [sections_plain ho, List.mem_cons] at h
    exact ih (h.resolve_left nofun)
  | unclosed c t ho hclose ih =>
    rw [sections_unclosed hclose, List.mem_cons] at h
    exact ih (h.resolve_left nofun)
  | block c t g a ho hclose ih =>
    rw [sections_block ho hclose] at h
    rcases List.mem_cons.1 h with heq | h
    · obtain ⟨m, rfl, -⟩ := exists_closing hclose
      exact ⟨c :: m, Section.block.inj heq⟩
    · exact ih h

theorem newline_notMem_closing : '\n' ∉ closing := by decide

theorem headLine_of_notMem (hs : '\n' ∉ s) (start : Nat) :
    (Block.ofRegion start (s ++ closing)).headLine = s ++ closing :=
  Text.firstLine_of_notMem (by simp [hs, newline_notMem_closing])

theorem openingLine_of_notMem (hs : '\n' ∉ s) (start : Nat) :
    (Block.ofRegion start (s ++ closing)).IsOneLine ∧
      (Block.ofRegion start (s ++ closing)).openingLine = s := by
  have hline := headLine_of_notMem hs start
  have hone : (Block.ofRegion start (s ++ closing)).IsOneLine := by
    rw [Block.IsOneLine, hline]
    rfl
  refine ⟨hone, ?_⟩
  rw [Block.openingLine, if_pos hone, hline, List.rdrop, List.length_append,
    Nat.add_sub_cancel, List.take_left]

theorem size_headLine_of_mem (hs : '\n' ∈ s) (start : Nat) :
    start + (Block.ofRegion start (s ++ closing)).headLine.size + 6 ≤
      (Block.ofRegion start (s ++ closing)).stop := by
  obtain ⟨l, r, rfl, hl⟩ := List.eq_append_cons_of_mem hs
  have hbreak : Char.utf8Size '\n' = 1 := rfl
  simp only [Block.ofRegion, List.append_assoc, List.cons_append, Text.firstLine_append hl,
    Text.size_append, Text.size_cons, size_closing, hbreak]
  omega

/-- If the closer of a block stands on its head line, then it is the last token of this line, so that the
head is that of the line without it exactly if two tokens stand before it. Otherwise the closer stands on
a later line. -/
theorem head_of_mem_blocks (t : Text) : ∀ b ∈ blocks t,
    (b.IsOneLine → b.headLine = b.openingLine ++ closing ∧
      b.head = some (Head.beforeCloser (itemPaths b.openingLine))) ∧
    (¬ b.IsOneLine → b.headLine = b.openingLine ∧ b.start + b.headLine.size + 6 ≤ b.stop) ∧
    (b.head = Head.parse b.openingLine ↔ (b.IsOneLine → 2 ≤ (itemPaths b.openingLine).length)) := by
  intro b hb
  obtain ⟨start, region, rfl, hmem⟩ := exists_region_of_mem_locateBlocks hb
  obtain ⟨s, rfl⟩ := exists_closing_of_mem_sections hmem
  by_cases hs : '\n' ∈ s
  · have hsize := size_headLine_of_mem hs start
    have hlong : ¬ (Block.ofRegion start (s ++ closing)).IsOneLine := by
      intro hone
      rw [Block.IsOneLine] at hone
      have hstart : (Block.ofRegion start (s ++ closing)).start = start := rfl
      omega
    have hline : (Block.ofRegion start (s ++ closing)).openingLine =
        (Block.ofRegion start (s ++ closing)).headLine := by
      rw [Block.openingLine, if_neg hlong]
    refine ⟨fun hone ↦ absurd hone hlong, fun _ ↦ ⟨hline.symm, hsize⟩, ?_⟩
    exact iff_of_true (congrArg Head.parse hline.symm) fun hone ↦ absurd hone hlong
  · obtain ⟨hone, hline⟩ := openingLine_of_notMem hs start
    have hhead : (Block.ofRegion start (s ++ closing)).head =
        some (Head.beforeCloser (itemPaths s)) := by
      rw [Block.head, headLine_of_notMem hs, parse_append_closing]
    rw [hline]
    refine ⟨fun _ ↦ ⟨headLine_of_notMem hs start, hhead⟩, fun hlong ↦ absurd hone hlong, ?_⟩
    rw [hhead, parse_eq_ofTokens, beforeCloser_eq_ofTokens_iff]
    exact ⟨fun hlen _ ↦ hlen, fun h ↦ h hone⟩

def itemsOnOneLine : Text :=
  ['~', '.', 'f', 'o', 'r', ' ', '.', 'i', '~', '.', 'e', 'n', 'd']

theorem head_of_mem_blocks_itemsOnOneLine :
    ∃ b ∈ blocks itemsOnOneLine, b.IsOneLine ∧ itemPaths b.openingLine = [['f', 'o', 'r'], ['i']] ∧
      b.head = some ⟨['f', 'o', 'r'], some ['i']⟩ ∧ b.head = Head.parse b.openingLine := by
  have hmem : Block.ofRegion 0 itemsOnOneLine ∈ blocks itemsOnOneLine := by decide
  have htokens : itemPaths (Block.ofRegion 0 itemsOnOneLine).openingLine =
      [['f', 'o', 'r'], ['i']] := by decide
  refine ⟨_, hmem, by decide, htokens, by decide, ?_⟩
  refine ((head_of_mem_blocks itemsOnOneLine) _ hmem).2.2.2 fun _ ↦ ?_
  rw [htokens]
  decide

def bareFor : Text :=
  ['~', '.', 'f', 'o', 'r', '~', '.', 'e', 'n', 'd']

theorem head_ne_parse_openingLine :
    ∃ b ∈ blocks bareFor, b.openingLine = ['~', '.', 'f', 'o', 'r'] ∧
      b.head = some ⟨['f', 'o', 'r'], some ['e', 'n', 'd']⟩ ∧
      Head.parse b.openingLine = some ⟨['f', 'o', 'r'], none⟩ ∧
      b.head ≠ Head.parse b.openingLine :=
  ⟨.ofRegion 0 bareFor, by decide, by decide, by decide, by decide, by decide⟩

end TildeMerge.Markup
