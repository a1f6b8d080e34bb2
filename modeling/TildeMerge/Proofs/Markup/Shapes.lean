import TildeMerge.Proofs.Markup.Sections

namespace TildeMerge.Markup

variable {c : Char} {s t g a : Text}

/-- What a block asks for. -/
structure Shape where
  head : Option Head
  fields : List Text
  deriving DecidableEq, Repr

def Block.shape (b : Block) : Shape where
  head := b.head
  fields := (itemRefs b.body).map Placeholder.path

def shapes (t : Text) : List Shape :=
  (blocks t).map Block.shape

/-- The fields of an item that a text names. -/
def itemPaths (t : Text) : List Text :=
  (itemPieces t).filterMap Piece.path?

def Shape.ofRegion (region : Text) : Shape where
  head := Head.parse region.firstLine
  fields := itemPaths (bodyOf region)

def Section.shape? : Section → Option Shape
  | .plain _ => none
  | .block region => some (.ofRegion region)

theorem map_path_locate (n : Nat) (ps : List Piece) :
    (locate n ps).map Placeholder.path = ps.filterMap Piece.path? := by
  induction ps generalizing n with
  | nil => rfl
  | cons piece ps ih =>
    cases piece with
    | plain c => exact ih _
    | placeholder path => exact congrArg (path :: ·) (ih _)

theorem itemPaths_append (s : Text) (h : EndsRun t) :
    itemPaths (s ++ t) = itemPaths s ++ itemPaths t := by
  rw [itemPaths, itemPieces_append s h, List.filterMap_append, itemPaths, itemPaths]

theorem itemPaths_append_of_plain (h : '.' ∉ s) (t : Text) :
    itemPaths (s ++ t) = itemPaths t := by
  have hplain : (s.map Piece.plain).filterMap Piece.path? = [] := by
    simp [Piece.path?]
  rw [itemPaths, itemPieces_append_of_plain h, List.filterMap_append, hplain, List.nil_append,
    itemPaths]

theorem itemPaths_nil : itemPaths [] = [] := rfl

theorem itemPaths_of_notMem (h : '.' ∉ s) : itemPaths s = [] := by
  rw [← List.append_nil s, itemPaths_append_of_plain h, itemPaths_nil]

theorem shape_ofRegion (n : Nat) (region : Text) :
    (Block.ofRegion n region).shape = .ofRegion region := by
  simp only [Block.shape, Block.head, Block.ofRegion, Shape.ofRegion, itemRefs, map_path_locate,
    itemPaths]

theorem map_shape_locateBlocks (n : Nat) (ss : List Section) :
    (locateBlocks n ss).map Block.shape = ss.filterMap Section.shape? := by
  induction ss generalizing n with
  | nil => rfl
  | cons sec ss ih =>
    cases sec with
    | plain c => exact ih _
    | block region =>
      rw [locateBlocks, List.map_cons, ih, shape_ofRegion]
      rfl

theorem shapes_eq (t : Text) : shapes t = (sections t).filterMap Section.shape? :=
  map_shape_locateBlocks 0 (sections t)

theorem shapes_plain (h : opens c t = false) : shapes (c :: t) = shapes t := by
  rw [shapes_eq, sections_plain h, shapes_eq]
  rfl

theorem shapes_unclosed (h : toCloser t = none) : shapes (c :: t) = shapes t := by
  rw [shapes_eq, sections_unclosed h, shapes_eq]
  rfl

theorem shapes_block (ho : opens c t = true) (h : toCloser t = some (g, a)) :
    shapes (c :: t) = .ofRegion (c :: g) :: shapes a := by
  rw [shapes_eq, sections_block ho h, shapes_eq]
  rfl

end TildeMerge.Markup
