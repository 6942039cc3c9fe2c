import Mathlib.Data.Nat.Notation
import Mathlib.Order.Defs.LinearOrder

/-!
# Domain types

The carriers of the engine: points, bounds and rings, transforms, placed
pieces and sheets.
-/

namespace PolygonNesting

abbrev PieceId := String

structure IrregularPoint (F : Type) where
  x : F
  y : F
  deriving DecidableEq

structure IrregularBounds (F : Type) where
  minX : F
  minY : F
  maxX : F
  maxY : F
  deriving DecidableEq

/-- An ordered ring; the edge from the last point to the first is implicit. -/
structure IrregularPolygon (F : Type) where
  points : List (IrregularPoint F)
  deriving DecidableEq

inductive IrregularTransformReason where
  | orthogonal
  | edgeAlignment
  | configured
  deriving DecidableEq

structure IrregularTransform (F : Type) where
  translateX : F
  translateY : F
  rotationDeg : F
  mirrored : Bool
  deriving DecidableEq

structure IrregularTransformCandidate (F : Type) where
  index : F
  rotationDeg : F
  mirrored : Bool
  reason : IrregularTransformReason
  deriving DecidableEq

structure TransformedCollisionGeometry (F : Type) where
  sourcePieceId : PieceId
  transform : IrregularTransformCandidate F
  polygon : IrregularPolygon F
  bounds : IrregularBounds F
  deriving DecidableEq

structure IrregularPlacement (F : Type) where
  pieceId : Option PieceId
  sourcePieceId : PieceId
  placementReference : Option (IrregularPoint F)
  transform : IrregularTransform F
  deriving DecidableEq

structure IrregularPlacedPiece (F : Type) where
  placement : IrregularPlacement F
  collisionGeometry : TransformedCollisionGeometry F
  deriving DecidableEq

structure CollisionGeometry (F : Type) where
  sourcePieceId : PieceId
  convexHull : IrregularPolygon F
  collisionPolygon : IrregularPolygon F
  placementReference : IrregularPoint F
  deriving DecidableEq

structure IrregularPreparedPiece (F : Type) where
  pieceId : Option PieceId
  sourceId : PieceId
  collisionGeometry : CollisionGeometry F
  transforms : List (IrregularTransformCandidate F)
  deriving DecidableEq

structure SheetSpec (F : Type) where
  width : F
  height : F
  label : String

/-- The inner-fit bounds of one moving piece in one sheet. -/
structure IrregularIfpBounds (F : Type) where
  sheet : SheetSpec F
  movingPieceId : PieceId
  bounds : IrregularBounds F

structure CollisionGeometryDiagnostic where
  code : String
  message : String
  pieceId : Option PieceId
  deriving DecidableEq

structure IrregularPlacementCandidate (F : Type) where
  pieceId : PieceId
  transform : IrregularTransformCandidate F
  point : IrregularPoint F
  diagnostics : List CollisionGeometryDiagnostic
  deriving DecidableEq

structure IrregularGeometrySettings (F : Type) where
  flatteningSagToleranceMm : F
  clearanceSafetyMarginMm : F
  geometryBackendId : String
  geometryBackendVersion : String
  deriving DecidableEq

/-- An `Arc<IrregularPlacedPiece>`: an address in the heap of placed pieces.
`Arc::ptr_eq` compares addresses, so equal pointers hold equal pieces. -/
structure PlacedArc {F : Type} (heap : ℕ → IrregularPlacedPiece F) where
  address : ℕ
  deriving DecidableEq

/-- The piece behind the pointer. -/
def PlacedArc.piece {F : Type} {heap : ℕ → IrregularPlacedPiece F}
    (arc : PlacedArc heap) : IrregularPlacedPiece F := heap arc.address

/-- Why a control stopped a computation. -/
inductive NfpIfpAbortReason where
  | deadline
  | cancelled
  deriving DecidableEq

structure NfpIfpControlAbortError where
  reason : NfpIfpAbortReason
  message : String
  deriving DecidableEq

end PolygonNesting
