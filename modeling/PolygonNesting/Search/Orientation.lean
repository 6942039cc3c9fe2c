import PolygonNesting.Canonical.Grid
import PolygonNesting.Search.BeamState

/-!
# Anchoring and quarter turns

A partial layout moved to the bottom-left corner, and turned there by 0 or 90
degrees.  Both rebuild the placed pieces, so both allocate: `alloc` is
`Arc::new`.
-/

namespace PolygonNesting

variable {F : Type} [LinearOrder F] [Zero F] [One F] [Add F] [Sub F] [Neg F]
  [Mul F] [Div F] [JsMath F] {heap : ℕ → IrregularPlacedPiece F} {π : Type}

inductive IrregularQuarterTurnDegrees where
  | zero
  | ninety
  deriving DecidableEq

/-- The turn in degrees. -/
def IrregularQuarterTurnDegrees.asDegrees : IrregularQuarterTurnDegrees → ℕ
  | .zero => 0
  | .ninety => 90

def rotateQuarterTurnPoint (point : IrregularPoint F) :
    IrregularQuarterTurnDegrees → IrregularPoint F
  | .zero => point
  | .ninety => ⟨-point.y, point.x⟩

def normalizeRotationDegrees (rotationDeg : F) : F :=
  let remainder := JsMath.remainder rotationDeg (JsNumber.ofNat 360)
  if remainder < 0 then remainder + JsNumber.ofNat 360 else remainder

/-- `bounds_for_points_unchecked`. -/
def boundsForPointsUnchecked : List (IrregularPoint F) → Option (IrregularBounds F)
  | [] => none
  | first :: rest =>
      some (rest.foldl extendBounds ⟨first.x, first.y, first.x, first.y⟩)

/-- A piece moved by an offset; `none` when the translation is not finite. -/
def shiftPlaced (offsetX offsetY : F) (placed : IrregularPlacedPiece F) :
    Option (IrregularPlacedPiece F) :=
  let transform := placed.placement.transform
  let nextTranslateX := transform.translateX + offsetX
  let nextTranslateY := transform.translateY + offsetY
  if !JsNumber.isFinite nextTranslateX || !JsNumber.isFinite nextTranslateY then none
  else some { placed with
    placement := { placed.placement with
      transform := { transform with
        translateX := nextTranslateX
        translateY := nextTranslateY } } }

/-- A piece turned about the origin, its polygon and its translation alike. -/
def turnPlaced (rotationDeg : IrregularQuarterTurnDegrees)
    (placed : IrregularPlacedPiece F) : Option (IrregularPlacedPiece F) := do
  let geometry := placed.collisionGeometry
  let transform := placed.placement.transform
  let rotatedTranslation := rotateQuarterTurnPoint
    ⟨transform.translateX, transform.translateY⟩ rotationDeg
  let rotatedPoints := geometry.polygon.points.map
    fun point => rotateQuarterTurnPoint point rotationDeg
  let rotatedBounds ← boundsForPointsUnchecked rotatedPoints
  let turn : F := JsNumber.ofNat rotationDeg.asDegrees
  some {
    placement := { placed.placement with
      transform := {
        translateX := rotatedTranslation.x
        translateY := rotatedTranslation.y
        rotationDeg := normalizeRotationDegrees (transform.rotationDeg + turn)
        mirrored := transform.mirrored } }
    collisionGeometry := {
      sourcePieceId := geometry.sourcePieceId
      transform := { geometry.transform with
        rotationDeg := normalizeRotationDegrees (geometry.transform.rotationDeg + turn) }
      polygon := ⟨rotatedPoints⟩
      bounds := rotatedBounds } }

namespace IrregularBeamState

/-- The state with its pieces replaced by a rigid motion of them: keys and index
derived again, contact metrics kept. -/
def withMovedPieces (state : IrregularBeamState heap π) (moved : List (PlacedArc heap))
    (bounds : Option (IrregularCollisionBounds F)) : IrregularBeamState heap π :=
  let canonicalEntryKeys :=
    (moved.map fun arc => canonicalPlacedGeometryKey arc.piece).mergeSort keyLe
  let index := makePlacedCollisionSpatialIndex moved none
  construct
    { remainingPreparedPieces := state.remainingPreparedPieces
      placedCollisionGeometries := moved
      unplacedPieceIds := some state.unplacedPieceIds
      unplacedSourcePieceIds := none
      placementOrder := state.placementOrder
      placedCollisionIndex := some index }
    (some { state.toDerivedMetadata with
      canonicalEntryKeys := canonicalEntryKeys
      canonicalOccupiedGeometryKey := canonicalEntryListKey F canonicalEntryKeys
      translatedCollisionBounds := bounds
      placedCollisionIndex := index })

/-- `with_bottom_left_anchored`: unchanged without bounds or at the origin. -/
def withBottomLeftAnchored (alloc : IrregularPlacedPiece F → PlacedArc heap)
    (state : IrregularBeamState heap π) : Option (IrregularBeamState heap π) :=
  match state.translatedCollisionBounds with
  | none => some state
  | some bounds =>
      if bounds.minX = 0 ∧ bounds.minY = 0 then some state
      else do
        let moved ← state.placedCollisionGeometries.mapM fun arc =>
          (shiftPlaced (-bounds.minX) (-bounds.minY) arc.piece).map alloc
        some (state.withMovedPieces moved
          (some ⟨0, 0, bounds.width, bounds.height, bounds.width, bounds.height⟩))

/-- `bottom_left_anchored_canonical_occupied_geometry_key`: the key of the
anchored state, without building it.  The memo of the source holds the same
keys. -/
def bottomLeftAnchoredCanonicalOccupiedGeometryKey
    (state : IrregularBeamState heap π) : Option String :=
  match state.translatedCollisionBounds with
  | none => some state.canonicalOccupiedGeometryKey
  | some bounds =>
      if bounds.minX = 0 ∧ bounds.minY = 0 then some state.canonicalOccupiedGeometryKey
      else do
        let moved ← state.placedCollisionGeometries.mapM fun arc =>
          shiftPlaced (-bounds.minX) (-bounds.minY) arc.piece
        some (canonicalEntryListKey F
          ((moved.map canonicalPlacedGeometryKey).mergeSort keyLe))

/-- `with_quarter_turn_bottom_left`. -/
def withQuarterTurnBottomLeft (alloc : IrregularPlacedPiece F → PlacedArc heap)
    (state : IrregularBeamState heap π) (rotationDeg : IrregularQuarterTurnDegrees) :
    Option (IrregularBeamState heap π) :=
  if rotationDeg = .zero then state.withBottomLeftAnchored alloc
  else if state.placedCollisionGeometries.isEmpty then some state
  else do
    let turned ← state.placedCollisionGeometries.mapM fun arc =>
      (turnPlaced rotationDeg arc.piece).map alloc
    (state.withMovedPieces turned (deriveCollisionBounds turned)).withBottomLeftAnchored
      alloc

end IrregularBeamState

end PolygonNesting
