import PolygonNesting.Domain
import PolygonNesting.Number

/-!
# The canonical grid

Coordinates in whole units of 0.001 mm, polygons on that grid, and the final
legality gate: every polygon inside the sheet and no two with a common positive
area.

A grid coordinate is an integer-valued `f64` in the source; here it is an
integer.  The boolean intersection of two paths comes from the Clipper port and
is a parameter.
-/

namespace PolygonNesting

variable {F : Type} [LinearOrder F] [Zero F] [One F] [Add F] [Sub F] [Neg F]
  [Mul F] [Div F] [JsMath F]

/-! ## §1  Quantization -/

/-- `Math.sign`, as an integer. -/
def signInt (value : F) : ℤ := if value = 0 then 0 else if 0 < value then 1 else -1

/-- `to_grid_mm`: nearest rounding with ties away from zero; `none` when the
result is no safe integer. -/
def toGridMm (valueMm : F) : Option ℤ :=
  if !JsNumber.isFinite valueMm then none
  else
    let scaledAbsoluteValue := absolute valueMm * JsNumber.ofNat 1000
    if !JsNumber.isFinite scaledAbsoluteValue then none
    else do
      let roundedAbsoluteValue ← JsNumber.floor (scaledAbsoluteValue + half)
      let gridValue := signInt valueMm * roundedAbsoluteValue
      if |gridValue| ≤ maxSafeInteger then some gridValue else none

/-- `from_grid`. -/
def fromGrid (value : ℤ) : F := JsMath.ofInt value / JsNumber.ofNat 1000

structure CanonicalGridPoint where
  x : ℤ
  y : ℤ
  deriving DecidableEq

abbrev CanonicalGridPath := List CanonicalGridPoint

/-! ## §2  Polygons -/

/-- Twice the signed area of a closed path, by the cyclic pairs of its points. -/
def canonicalGridSignedDoubledArea (path : CanonicalGridPath) : ℤ :=
  if path.length < 3 then 0
  else ((path.zip (path.tail ++ path.take 1)).map fun (first, second) =>
    first.x * second.y - second.x * first.y).sum

def canonicalGridAbsoluteDoubledArea (path : CanonicalGridPath) : ℤ :=
  |canonicalGridSignedDoubledArea path|

/-- `placed_collision_world_grid_path`: add in millimetres, then round once. -/
def placedCollisionWorldGridPath (entry : IrregularPlacedPiece F) :
    Option CanonicalGridPath :=
  let points := entry.collisionGeometry.polygon.points
  if points.length < 3 then none
  else points.mapM fun point => do
    let x ← toGridMm (point.x + entry.placement.transform.translateX)
    let y ← toGridMm (point.y + entry.placement.transform.translateY)
    some ⟨x, y⟩

/-- The identity of a placement: its own id, or that of its source. -/
def IrregularPlacement.preparedId (placement : IrregularPlacement F) : PieceId :=
  placement.pieceId.getD placement.sourcePieceId

structure CanonicalPlacedPolygon where
  pieceId : PieceId
  path : CanonicalGridPath
  deriving DecidableEq

/-- `canonical_placed_polygons`: `none` as soon as one is degenerate. -/
def canonicalPlacedPolygons (placed : List (IrregularPlacedPiece F)) :
    Option (List CanonicalPlacedPolygon) :=
  placed.mapM fun entry => do
    let path ← placedCollisionWorldGridPath entry
    if path.length < 3 ∨ canonicalGridSignedDoubledArea path = 0 then none
    else some ⟨entry.placement.preparedId, path⟩

/-! ## §3  Legality -/

/-- Every unordered pair once, the later element first. -/
def laterPairs {α : Type} : List α → List (α × α)
  | [] => []
  | a :: rest => rest.map (fun later => (later, a)) ++ laterPairs rest

/-- `assert_canonical_grid_legal_layout`: every polygon fits the sheet and no
pair has positive overlap. -/
def assertCanonicalGridLegalLayout
    (intersection : CanonicalGridPath → CanonicalGridPath → List CanonicalGridPath)
    (sheet : SheetSpec F) (placed : List (IrregularPlacedPiece F)) : Bool :=
  match canonicalPlacedPolygons placed, toGridMm sheet.width, toGridMm sheet.height with
  | some polygons, some sheetWidth, some sheetHeight =>
      (polygons.all fun polygon => polygon.path.all fun point =>
        decide (0 ≤ point.x ∧ 0 ≤ point.y ∧ point.x ≤ sheetWidth ∧
          point.y ≤ sheetHeight)) &&
      (laterPairs polygons).all fun (first, second) =>
        (intersection first.path second.path).all fun path =>
          decide (canonicalGridAbsoluteDoubledArea path = 0)
  | _, _, _ => false

/-! ## §4  Measurements of a layout -/

structure CanonicalLayoutTopologyExact where
  positiveContactComponentCount : ℕ
  isolatedPieceCount : ℕ
  largestPositiveContactComponentSize : ℕ
  exactHullGapDoubledAreaGrid2 : ℤ
  exactHullDoubledAreaGrid2 : ℤ
  deriving DecidableEq

structure CanonicalLayoutEnvelopeMetrics (F : Type) where
  areaMm2 : F
  maximumSideMm : F
  spanMm : F
  maximumSideGrid : ℤ
  spanGrid : ℤ
  envelopeAreaGrid2 : ℤ
  deriving DecidableEq

end PolygonNesting
