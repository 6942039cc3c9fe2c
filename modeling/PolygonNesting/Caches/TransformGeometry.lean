import PolygonNesting.Caches.GeometryCaches
import PolygonNesting.Canonical.Grid
import PolygonNesting.Geometry.StrictBoundary
import PolygonNesting.Lib.Fallible
import PolygonNesting.Search.Orientation

set_option linter.unusedSectionVars false

/-!
# Transformed collision geometry

The collision polygon of a piece is mirrored and turned, and every vertex is snapped to
the canonical grid.  The result is kept in the geometry cache; a cached value is used if
it is of the same piece and transform, has a valid ring and the bounds of that ring.

The key is a text of the whole input.  The piece id in it may hold any characters, but
the check of a cached value compares it, so that a value that is used is the one that
would be computed.
-/

namespace PolygonNesting

/-- What turns by other angles than quarter turns take from `f64`. -/
class JsTrig (F : Type) where
  pi : F
  cos : F → F
  sin : F → F

namespace Caches

open StatefulCall

variable {F : Type} [LinearOrder F] [Zero F] [One F] [Add F] [Sub F] [Neg F]
  [Mul F] [Div F] [JsMath F] [JsTrig F]

/-! ## §1  The transform -/

/-- The input of the cache: a collision geometry, its source bounds, and a transform. -/
structure TransformCollisionGeometryKeyInput (F : Type) where
  geometry : CollisionGeometry F
  sourceBounds : IrregularBounds F
  transform : IrregularTransformCandidate F

/-- Mirror, then turn counter-clockwise; quarter turns without rounding. -/
def transformPoint (point : IrregularPoint F) (mirrored : Bool) (rotationDeg : F) :
    IrregularPoint F :=
  let x := if mirrored then -point.x else point.x
  let y := point.y
  if rotationDeg = 0 then ⟨x, y⟩
  else if rotationDeg = JsNumber.ofNat 90 then ⟨-y, x⟩
  else if rotationDeg = JsNumber.ofNat 180 then ⟨-x, -y⟩
  else if rotationDeg = JsNumber.ofNat 270 then ⟨y, -x⟩
  else
    let rotationRad : F := rotationDeg * JsTrig.pi / JsNumber.ofNat 180
    let cos : F := JsTrig.cos rotationRad
    let sin : F := JsTrig.sin rotationRad
    ⟨x * cos - y * sin, x * sin + y * cos⟩

/-- A grid point in millimetres. -/
def gridPointMm (point : CanonicalGridPoint) : IrregularPoint F :=
  ⟨fromGrid point.x, fromGrid point.y⟩

def snapPointToCollisionGrid (point : IrregularPoint F) : Option (IrregularPoint F) := do
  let x ← toGridMm point.x
  let y ← toGridMm point.y
  some (gridPointMm ⟨x, y⟩)

/-- One vertex: transformed, then snapped. -/
def transformVertex (input : TransformCollisionGeometryKeyInput F)
    (point : IrregularPoint F) : Except String (IrregularPoint F) :=
  let transformed := transformPoint point input.transform.mirrored
    (normalizeRotationDegrees input.transform.rotationDeg)
  if !isFinitePoint transformed then
    .error "transform must produce finite collision polygon coordinates."
  else
    match snapPointToCollisionGrid transformed with
    | some snapped => .ok snapped
    | none => .error
        "transformed collision polygon coordinates must fit the canonical collision grid."

/-- The geometry of the transformed vertices, when they form a valid ring. -/
def transformedOfPoints (input : TransformCollisionGeometryKeyInput F)
    (points : List (IrregularPoint F)) : Except String (TransformedCollisionGeometry F) :=
  match validateStrictBoundary points with
  | .invalid message => .error ("transformed collision " ++ message)
  | .valid _ =>
      match boundsForPoints points with
      | none => .error "collision polygon must contain at least one transformable vertex."
      | some bounds =>
          .ok ⟨input.geometry.sourcePieceId, input.transform, ⟨points⟩, bounds⟩

def computeTransformedCollisionGeometry (input : TransformCollisionGeometryKeyInput F) :
    Except String (TransformedCollisionGeometry F) :=
  match validateStrictBoundary input.geometry.collisionPolygon.points with
  | .invalid message => .error message
  | .valid _ =>
      (input.geometry.collisionPolygon.points.mapM (transformVertex input)).bind
        (transformedOfPoints input)

/-! ## §2  The cache -/

def collisionGeometryDigest (input : TransformCollisionGeometryKeyInput F) : String :=
  ";".intercalate
    ["source=" ++ input.geometry.sourcePieceId,
      "source-bounds=" ++ boundsDigest input.sourceBounds,
      "placement-reference=" ++ pointDigest input.geometry.placementReference,
      "hull=" ++ polygonDigest input.geometry.convexHull.points,
      "collision=" ++ polygonDigest input.geometry.collisionPolygon.points]

def makeTransformCollisionGeometryCacheKey (input : TransformCollisionGeometryKeyInput F)
    (settings : IrregularGeometrySettings F) : GeometryCacheKey where
  keyNamespace := transformGeometryCacheNamespace
  parts :=
    [collisionGeometryDigest input, transformDigest input.transform] ++
      geometrySettingsParts settings ++
      ["placement-reference=local-lower-left",
        "transform-operation=mirror-y-then-ccw-rotate"]

def sameTransform (first second : IrregularTransformCandidate F) : Bool :=
  decide (first.index = second.index) && decide (first.rotationDeg = second.rotationDeg) &&
    decide (first.mirrored = second.mirrored) && decide (first.reason = second.reason)

def isValidCachedTransformedCollisionGeometry (value : TransformedCollisionGeometry F)
    (input : TransformCollisionGeometryKeyInput F) : Bool :=
  decide (value.sourcePieceId = input.geometry.sourcePieceId) &&
    sameTransform value.transform input.transform &&
    decide (3 ≤ value.polygon.points.length) &&
    (match validateStrictBoundary value.polygon.points with
      | .invalid _ => false
      | .valid _ => true) &&
    decide (boundsForPoints value.polygon.points = some value.bounds)

/-- `resolve_transformed_collision_geometry`: the cached value, or the computed one,
which is then kept. -/
def resolveTransformedCollisionGeometry (input : TransformCollisionGeometryKeyInput F)
    (settings : IrregularGeometrySettings F) :
    ExceptT String (CacheCall F) (TransformedCollisionGeometry F) := do
  let key := makeTransformCollisionGeometryCacheKey input settings
  let cached : Option (TransformedCollisionGeometry F) ←
    ExceptT.lift (getCached (F := F) key .transformedCollisionGeometry)
  let usable := cached.filter fun value => isValidCachedTransformedCollisionGeometry value input
  match usable with
  | some value =>
      ExceptT.lift (record GeometryCacheStore.recordHit transformGeometryCacheNamespace)
      pure value
  | none =>
      if cached.isSome then
        ExceptT.lift
          (record GeometryCacheStore.recordStaleDetection transformGeometryCacheNamespace)
        ExceptT.lift (removeCached key)
      let computed ← ExceptT.mk (pure (computeTransformedCollisionGeometry input))
      let _ ← ExceptT.lift
        (publish (F := F) key .transformedCollisionGeometry computed)
      pure computed

/-! ## §3  What a key gives back -/

section Keys

variable (numbers : KeyNumberText F)

include numbers

end Keys

/-! ## §4  The resolver -/

end Caches

end PolygonNesting
