import PolygonNesting.Canonical.Grid
import PolygonNesting.Checkpoints.CanonicalJson

/-!
# Pair folds and shelves

The two layouts of boxes.  A pair fold stands all pieces in one row and stacks one of them
on another; the pair is the one with the smallest envelope among those that fit.  A
next-fit shelf fills rows from left to right and starts a new row where a piece does not
fit any more.

Both work in normalized axes, the short one first, on the bounds of the pieces in grid
units.
-/

namespace PolygonNesting.PairFold

variable {F : Type} [LinearOrder F] [Zero F] [One F] [Add F] [Sub F] [Neg F]
  [Mul F] [Div F] [JsMath F] {heap : ℕ → IrregularPlacedPiece F}

/-! ## §1  Axes -/

inductive ShortSideAxisDimension where
  | width
  | height
  deriving DecidableEq

inductive ShortSideRotationDeg where
  | zero
  | ninety
  deriving DecidableEq

structure IntrinsicShortSideAxes (F : Type) where
  shortAxis : ShortSideAxisDimension
  longAxis : ShortSideAxisDimension
  shortAxisMm : F
  longAxisMm : F
  normalizedToPhysicalRotationDeg : ShortSideRotationDeg

/-- The height of a square is its short axis. -/
def intrinsicShortSideAxes (sheet : SheetSpec F) : IntrinsicShortSideAxes F :=
  if sheet.width < sheet.height then ⟨.width, .height, sheet.width, sheet.height, .zero⟩
  else ⟨.height, .width, sheet.height, sheet.width, .ninety⟩

/-! ## §2  Transforms -/

structure SelectedTransform (F : Type) where
  piece : IrregularPreparedPiece F
  pieceId : PieceId
  geometry : TransformedCollisionGeometry F
  widthGrid : ℤ
  heightGrid : ℤ
  minXGrid : ℤ
  minYGrid : ℤ

def preparedPieceId (piece : IrregularPreparedPiece F) : PieceId :=
  piece.pieceId.getD piece.sourceId

/-- One transform of a piece, if its bounds are on the grid and have a size. -/
def selectedTransform (piece : IrregularPreparedPiece F)
    (geometry : TransformedCollisionGeometry F) : Option (SelectedTransform F) := do
  let minXGrid ← toGridMm geometry.bounds.minX
  let minYGrid ← toGridMm geometry.bounds.minY
  let maxXGrid ← toGridMm geometry.bounds.maxX
  let maxYGrid ← toGridMm geometry.bounds.maxY
  if maxXGrid - minXGrid ≤ 0 ∨ maxYGrid - minYGrid ≤ 0 then none
  else some {
    piece, geometry, minXGrid, minYGrid
    pieceId := preparedPieceId piece
    widthGrid := maxXGrid - minXGrid
    heightGrid := maxYGrid - minYGrid }

/-- The end of both orders of transforms. -/
def compareTransforms (first second : IrregularTransformCandidate F) : Ordering :=
  (compare first.index second.index).then <|
  (compare first.rotationDeg second.rotationDeg).then <|
  compare first.mirrored second.mirrored

def compareSelectedTransforms (first second : SelectedTransform F) : Ordering :=
  (compare first.widthGrid second.widthGrid).then <|
  (compare first.heightGrid second.heightGrid).then <|
  compareTransforms first.geometry.transform second.geometry.transform

def compareShelfTransforms (first second : SelectedTransform F) : Ordering :=
  (compare first.heightGrid second.heightGrid).then <|
  (compare second.widthGrid first.widthGrid).then <|
  compareTransforms first.geometry.transform second.geometry.transform

/-- The first least transform so far. -/
def keepTransform (cmp : SelectedTransform F → SelectedTransform F → Ordering)
    (selected : Option (SelectedTransform F)) (candidate : SelectedTransform F) :
    Option (SelectedTransform F) :=
  match selected with
  | none => some candidate
  | some current => if cmp candidate current = .lt then some candidate else some current

/-! ## §3  Pairs -/

structure SelectedPair where
  bottomIndex : ℕ
  upperIndex : ℕ
  widthGrid : ℤ
  depthGrid : ℤ
  envelopeAreaGrid2 : ℤ
  deriving DecidableEq

/-- The entries of a list in pairs, the earlier first. -/
def earlierPairs {α : Type} : List α → List (α × α)
  | [] => []
  | bottom :: rest => rest.map (fun upper => (bottom, upper)) ++ earlierPairs rest

def otherMaximumHeightGrid (selectedTransforms : List (SelectedTransform F))
    (bottomIndex upperIndex : ℕ) : ℤ :=
  selectedTransforms.zipIdx.foldl (fun maximum entry =>
    if entry.2 = bottomIndex ∨ entry.2 = upperIndex then maximum
    else max maximum entry.1.heightGrid) 0

/-- The row with the upper piece taken out and stacked on the bottom piece. -/
def selectedPair (selectedTransforms : List (SelectedTransform F))
    (bottom upper : SelectedTransform F × ℕ) : SelectedPair :=
  let totalWidthGrid := (selectedTransforms.map SelectedTransform.widthGrid).sum
  let widthGrid := totalWidthGrid - bottom.1.widthGrid - upper.1.widthGrid +
    max bottom.1.widthGrid upper.1.widthGrid
  let depthGrid := max (bottom.1.heightGrid + upper.1.heightGrid)
    (otherMaximumHeightGrid selectedTransforms bottom.2 upper.2)
  { bottomIndex := bottom.2
    upperIndex := upper.2
    widthGrid := widthGrid
    depthGrid := depthGrid
    envelopeAreaGrid2 := widthGrid * depthGrid }

def pieceIdAt (selectedTransforms : List (SelectedTransform F)) (index : ℕ) : PieceId :=
  (selectedTransforms[index]?.map SelectedTransform.pieceId).getD ""

def compareSelectedPairs (selectedTransforms : List (SelectedTransform F))
    (first second : SelectedPair) : Ordering :=
  (compare first.envelopeAreaGrid2 second.envelopeAreaGrid2).then <|
  (compare first.depthGrid second.depthGrid).then <|
  (localeCompareKeys (pieceIdAt selectedTransforms first.bottomIndex)
    (pieceIdAt selectedTransforms second.bottomIndex)).then <|
  localeCompareKeys (pieceIdAt selectedTransforms first.upperIndex)
    (pieceIdAt selectedTransforms second.upperIndex)

/-- The requested axes in grid units. -/
structure RequestedAxes where
  shortAxisGrid : ℤ
  longAxisGrid : ℤ

def SelectedPair.fits (pair : SelectedPair) (requested : RequestedAxes) : Bool :=
  decide (pair.widthGrid ≤ requested.shortAxisGrid ∧ pair.depthGrid ≤ requested.longAxisGrid)

/-- The first least pair so far among those that fit. -/
def keepPair (selectedTransforms : List (SelectedTransform F)) (requested : RequestedAxes)
    (selected : Option SelectedPair) (candidate : SelectedPair) : Option SelectedPair :=
  if candidate.fits requested then
    match selected with
    | none => some candidate
    | some current =>
        if compareSelectedPairs selectedTransforms candidate current = .lt then some candidate
        else some current
  else selected

/-! ## §4  Layouts -/

def createPlacedPiece (selected : SelectedTransform F) (cursorGrid verticalOffsetGrid : ℤ) :
    IrregularPlacedPiece F where
  placement := {
    pieceId := selected.piece.pieceId
    sourcePieceId := selected.piece.sourceId
    placementReference := some selected.piece.collisionGeometry.placementReference
    transform := {
      translateX := fromGrid (cursorGrid - selected.minXGrid)
      translateY := fromGrid (verticalOffsetGrid - selected.minYGrid)
      rotationDeg := selected.geometry.transform.rotationDeg
      mirrored := selected.geometry.transform.mirrored } }
  collisionGeometry := selected.geometry

section Layouts

variable (alloc : IrregularPlacedPiece F → PlacedArc heap)

structure PairRow (heap : ℕ → IrregularPlacedPiece F) where
  cursorGrid : ℤ
  placed : List (PlacedArc heap)

/-- One entry of the row.  An index without a transform panics in the source. -/
def placePairEntry (selectedTransforms : List (SelectedTransform F)) (pair : SelectedPair)
    (requestedShortAxisGrid : ℤ) (row : PairRow heap) (entry : SelectedTransform F × ℕ) :
    Option (PairRow heap) :=
  let selected := entry.1
  if entry.2 = pair.upperIndex then some row
  else if entry.2 = pair.bottomIndex then do
    let upper ← selectedTransforms[pair.upperIndex]?
    some {
      cursorGrid := row.cursorGrid + max selected.widthGrid upper.widthGrid
      placed := row.placed ++ [alloc (createPlacedPiece selected row.cursorGrid 0),
        alloc (createPlacedPiece upper row.cursorGrid selected.heightGrid)] }
  else if requestedShortAxisGrid < row.cursorGrid + selected.widthGrid then none
  else some {
    cursorGrid := row.cursorGrid + selected.widthGrid
    placed := row.placed ++ [alloc (createPlacedPiece selected row.cursorGrid 0)] }

def constructPairLayout (selectedTransforms : List (SelectedTransform F))
    (pair : SelectedPair) (requestedShortAxisGrid : ℤ) : Option (List (PlacedArc heap)) :=
  (selectedTransforms.zipIdx.foldlM
    (placePairEntry alloc selectedTransforms pair requestedShortAxisGrid) ⟨0, []⟩).map
      PairRow.placed

structure ShelfLayout (heap : ℕ → IrregularPlacedPiece F) where
  placed : List (PlacedArc heap)
  rowCount : ℕ

structure ShelfRow (heap : ℕ → IrregularPlacedPiece F) extends ShelfLayout heap where
  cursorGrid : ℤ
  rowStartGrid : ℤ
  rowHeightGrid : ℤ

/-- A new row where the piece does not fit behind the others. -/
def breakRow (requestedShortAxisGrid : ℤ) (row : ShelfRow heap)
    (selected : SelectedTransform F) : ShelfRow heap :=
  if 0 < row.cursorGrid ∧ requestedShortAxisGrid < row.cursorGrid + selected.widthGrid then
    { placed := row.placed
      rowCount := row.rowCount + 1
      cursorGrid := 0
      rowStartGrid := row.rowStartGrid + row.rowHeightGrid
      rowHeightGrid := 0 }
  else row

def placeShelfEntry (requested : RequestedAxes) (row : ShelfRow heap)
    (selected : SelectedTransform F) : Option (ShelfRow heap) :=
  if requested.shortAxisGrid < selected.widthGrid ∨
      requested.longAxisGrid < selected.heightGrid then none
  else
    let row := breakRow requested.shortAxisGrid row selected
    if requested.longAxisGrid < row.rowStartGrid + selected.heightGrid then none
    else some {
      placed := row.placed ++
        [alloc (createPlacedPiece selected row.cursorGrid row.rowStartGrid)]
      rowCount := row.rowCount
      cursorGrid := row.cursorGrid + selected.widthGrid
      rowStartGrid := row.rowStartGrid
      rowHeightGrid := max row.rowHeightGrid selected.heightGrid }

def constructNextFitShelf (selectedTransforms : List (SelectedTransform F))
    (requested : RequestedAxes) : Option (ShelfLayout heap) :=
  (selectedTransforms.foldlM (placeShelfEntry alloc requested) {
    placed := []
    rowCount := if selectedTransforms.isEmpty then 0 else 1
    cursorGrid := 0
    rowStartGrid := 0
    rowHeightGrid := 0 }).map ShelfRow.toShelfLayout

end Layouts

end PolygonNesting.PairFold
