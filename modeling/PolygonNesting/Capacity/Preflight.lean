import PolygonNesting.Caches.TransformGeometry
import PolygonNesting.Capacity.ColdSearch

/-!
# The capacity preflight

Before any search the preflight looks for a proof that the pieces cannot all be placed:
a piece that fits the sheet in none of its transforms, upright or turned, or pieces whose
least areas add up to more than the sheet.  It measures every transform of every piece on
the canonical grid and gives up with an error on the first it cannot measure.

The computation is written over what it takes from its surroundings: the checkpoints of
the control and the resolver of the transformed geometry.  The control answers by the
place of the checkpoint, the start of a piece or one of its transforms.
-/

namespace PolygonNesting

open StatefulCall Caches

variable {F : Type} [LinearOrder F] [Zero F] [One F] [Add F] [Sub F] [Neg F]
  [Mul F] [Div F] [JsMath F]

/-! ## §1  Outcomes -/

/-- The points on the canonical grid; `none` as soon as one does not fit it. -/
def gridPathOf (points : List (IrregularPoint F)) : Option CanonicalGridPath :=
  points.mapM fun point => do
    let x ← toGridMm point.x
    let y ← toGridMm point.y
    some ⟨x, y⟩

/-- The loop of `exact_doubled_polygon_area_grid2`. -/
def doubledShoelace (path : CanonicalGridPath) : ℤ :=
  ((List.range path.length).map fun index =>
    let first := path.getD index ⟨0, 0⟩
    let second := path.getD ((index + 1) % path.length) ⟨0, 0⟩
    first.x * second.y - second.x * first.y).sum

/-- The doubled area; `none` for fewer than three points, a point off the grid, or no
area. -/
def exactDoubledPolygonAreaGrid2 (points : List (IrregularPoint F)) : Option ℤ :=
  if points.length < 3 then none
  else do
    let gridPoints ← gridPathOf points
    let magnitude := |doubledShoelace gridPoints|
    if 0 < magnitude then some magnitude else none

structure TransformedGridSpan where
  width : ℤ
  height : ℤ
  deriving DecidableEq

/-- The extent of a path along the axes, none for the empty path. -/
def gridSpanOf : CanonicalGridPath → Option TransformedGridSpan
  | [] => none
  | first :: rest =>
      let minX := rest.foldl (fun least point => min least point.x) first.x
      let minY := rest.foldl (fun least point => min least point.y) first.y
      let maxX := rest.foldl (fun greatest point => max greatest point.x) first.x
      let maxY := rest.foldl (fun greatest point => max greatest point.y) first.y
      some ⟨maxX - minX, maxY - minY⟩

def transformedGridSpan (points : List (IrregularPoint F)) : Option TransformedGridSpan :=
  (gridPathOf points).bind gridSpanOf

/-- Ceiling division of naturals in parts per million. -/
def scaledRatioCeilPpm (numerator denominator : ℤ) : ℤ :=
  (numerator * 1000000 + denominator - 1).tdiv denominator

def maximumRatioPpm (firstNumerator firstDenominator secondNumerator secondDenominator : ℤ) :
    ℤ :=
  let first := scaledRatioCeilPpm firstNumerator firstDenominator
  let second := scaledRatioCeilPpm secondNumerator secondDenominator
  if second < first then first else second

def minimumRigidSpanPressurePpm (span : TransformedGridSpan)
    (sheetWidthGrid sheetHeightGrid : ℤ) : ℤ :=
  let q0 := maximumRatioPpm span.width sheetWidthGrid span.height sheetHeightGrid
  let q90 := maximumRatioPpm span.height sheetWidthGrid span.width sheetHeightGrid
  if q0 < q90 then q0 else q90

/-- Upright or turned by a quarter. -/
def spanFits (span : TransformedGridSpan) (sheetWidthGrid sheetHeightGrid : ℤ) : Bool :=
  decide (span.width ≤ sheetWidthGrid) && decide (span.height ≤ sheetHeightGrid) ||
    decide (span.height ≤ sheetWidthGrid) && decide (span.width ≤ sheetHeightGrid)

/-! ## §3  The computation -/

/-- What the transforms of a piece measured so far. -/
structure PieceMeasure where
  minimumDoubledAreaGrid2 : Option ℤ
  minimumSingletonSpanPressurePpm : Option ℤ
  singletonFits : Bool
  deriving DecidableEq

/-- The lesser of a value and the least so far. -/
def keepMinimum (current : Option ℤ) (value : ℤ) : Option ℤ :=
  match current with
  | none => some value
  | some least => if value < least then some value else some least

def PieceMeasure.withTransform (measure : PieceMeasure) (doubledAreaGrid2 : ℤ)
    (span : TransformedGridSpan) (sheetWidthGrid sheetHeightGrid : ℤ) : PieceMeasure where
  minimumDoubledAreaGrid2 := keepMinimum measure.minimumDoubledAreaGrid2 doubledAreaGrid2
  minimumSingletonSpanPressurePpm := keepMinimum measure.minimumSingletonSpanPressurePpm
    (minimumRigidSpanPressurePpm span sheetWidthGrid sheetHeightGrid)
  singletonFits := measure.singletonFits || spanFits span sheetWidthGrid sheetHeightGrid

structure PreflightTotals where
  minimumDoubledCollisionAreaSumGrid2 : ℤ
  maximumSingletonSpanPressurePpm : ℤ
  singletonInfeasiblePieceIds : List PieceId
  deriving DecidableEq

def PreflightTotals.withPiece (totals : PreflightTotals) (pieceId : PieceId)
    (minimumDoubledAreaGrid2 minimumSingletonSpanPressurePpm : ℤ) (singletonFits : Bool) :
    PreflightTotals where
  minimumDoubledCollisionAreaSumGrid2 :=
    totals.minimumDoubledCollisionAreaSumGrid2 + minimumDoubledAreaGrid2
  maximumSingletonSpanPressurePpm :=
    if totals.maximumSingletonSpanPressurePpm < minimumSingletonSpanPressurePpm then
      minimumSingletonSpanPressurePpm
    else totals.maximumSingletonSpanPressurePpm
  singletonInfeasiblePieceIds :=
    if singletonFits then totals.singletonInfeasiblePieceIds
    else totals.singletonInfeasiblePieceIds ++ [pieceId]

section Computation

variable {M : Type → Type} [Monad M] [MonadExceptOf IntrinsicCapacityPreflightError M]

end Computation

/-! ## §4  With the caches and a control -/

variable [JsTrig F]

/-- The input of the cache for one transform of a piece; the source bounds are a field of
the geometry that only the key reads. -/
def transformInput (sourceBounds : CollisionGeometry F → IrregularBounds F)
    (piece : IrregularPreparedPiece F) (transform : IrregularTransformCandidate F) :
    TransformCollisionGeometryKeyInput F :=
  ⟨piece.collisionGeometry, sourceBounds piece.collisionGeometry, transform⟩

end PolygonNesting
