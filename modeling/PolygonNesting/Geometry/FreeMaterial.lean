import PolygonNesting.Geometry.Convex
import PolygonNesting.Lib.CyclicStart
import PolygonNesting.Search.GapRegions

/-!
# Free material of a sheet

What is left of the sheet once the placed collision polygons are taken away: outer boundaries
with the holes right inside them, each ring read from its lowest and then leftmost vertex, the
regions and the holes in a fixed order.
-/

namespace PolygonNesting.FreeMaterial

open Binary64

inductive FreeMaterialOperation where
  | unionThenDifference
  | directDifference
  deriving DecidableEq

/-- `MaterialRegionArtifact` has the same fields. -/
structure FreeMaterialRegion (F : Type) where
  boundary : IrregularPolygon F
  holes : List (IrregularPolygon F)
  deriving DecidableEq

structure FreeMaterialSnapshot (F : Type) where
  sheet : SheetSpec F
  regions : List (FreeMaterialRegion F)
  diagnostics : List CollisionGeometryDiagnostic

structure ComputeFreeMaterialInput (F : Type) where
  sheet : SheetSpec F
  placed : List (IrregularPlacedPiece F)

structure ExtendFreeMaterialInput (F : Type) where
  parent : FreeMaterialSnapshot F
  placed : IrregularPlacedPiece F

structure IrregularGeometryInputError where
  operation : String
  message : String
  deriving DecidableEq

def fail (operation message : String) : IrregularGeometryInputError := ⟨operation, message⟩

/-! ## §1  Paths on the grid -/

def maxScaledCoordinate : ℤ := 1000000000

/-- `max_coord_for_safe_area_product`. -/
def maxCoordForSafeAreaProduct : ℤ := 47453132

/-- Every vertex after the one before it, the first after the last. -/
def withPrevious (path : CanonicalGridPath) : List (CanonicalGridPoint × CanonicalGridPoint) :=
  (path.getLast?.toList ++ path.dropLast).zip path

/-- `area` of the Clipper port: summed in `f64` for small coordinates, exactly for all others.
The coordinates are safe integers. -/
def area (path : CanonicalGridPath) : Number :=
  if path.length < 3 then Number.ofInt 0
  else if path.all fun pt =>
      |pt.x| < maxCoordForSafeAreaProduct && |pt.y| < maxCoordForSafeAreaProduct then
    ((withPrevious path).foldl (fun total (prevPt, pt) =>
      total.add (((Number.ofInt prevPt.y).add (Number.ofInt pt.y)).mul
        ((Number.ofInt prevPt.x).sub (Number.ofInt pt.x)))) (Number.ofInt 0)).mul (Binary64.round (1 / 2))
  else
    (Number.ofInt ((withPrevious path).map fun (prevPt, pt) =>
      (prevPt.y + pt.y) * (prevPt.x - pt.x)).sum).mul (Binary64.round (1 / 2))

def validateCoordinateGuard (path : CanonicalGridPath) : Except String Unit :=
  if path.all fun point =>
      |point.x| ≤ maxSafeInteger && |point.y| ≤ maxSafeInteger &&
        |point.x| ≤ maxScaledCoordinate && |point.y| ≤ maxScaledCoordinate then .ok ()
  else .error "coordinates exceed the Clipper2 scaled coordinate guard."

/-- The loop of `validate_path_structure` over the vertices. -/
def validateVertices (label : String) (requireUniqueVertices : Bool) :
    List CanonicalGridPoint → CanonicalGridPath → Except String Unit
  | _, [] => .ok ()
  | uniquePoints, point :: rest =>
      if maxSafeInteger < |point.x| || maxSafeInteger < |point.y| then
        .error (label ++ " contains an unsafe integer coordinate.")
      else if requireUniqueVertices && uniquePoints.contains point then
        .error (label ++ " must contain unique vertices.")
      else validateVertices label requireUniqueVertices (point :: uniquePoints) rest

def validatePathStructure (path : CanonicalGridPath) (label : String)
    (requireUniqueVertices : Bool) : Except String Unit := do
  if path.length < 3 then
    throw (label ++ " must contain at least three vertices.")
  validateVertices label requireUniqueVertices [] path
  let signedArea := area path
  if !signedArea.isFinite || signedArea.eq (Number.ofInt 0) then
    throw (label ++ " must have finite non-zero area.")

def validatePath (path : CanonicalGridPath) (label : String) : Except String Unit :=
  validatePathStructure path label true

/-- A computed boundary may repeat a vertex where regions meet at one point. -/
def validateClipperOutputPath (path : CanonicalGridPath) (label : String) : Except String Unit :=
  validatePathStructure path label false

/-- Redundant consecutive and closing vertices are dropped. -/
def normalizeClipperOutputPath (path : CanonicalGridPath) : CanonicalGridPath :=
  CyclicStart.stripDuplicates path true

def canonicalizeWinding (path : CanonicalGridPath) (counterClockwise : Bool) :
    CanonicalGridPath :=
  let isCounterClockwise := (Number.ofInt 0).lt (area path)
  if isCounterClockwise == counterClockwise then path else path.reverse

def canonicalizeCounterClockwise (path : CanonicalGridPath) : CanonicalGridPath :=
  canonicalizeWinding path true

variable {F : Type} [LinearOrder F] [Zero F] [One F] [Add F] [Sub F] [Neg F] [Mul F] [Div F]
  [JsMath F]

/-! ## §2  Regions -/

/-- The order of `rotate_to_stable_start`: lower first, then further left. -/
def comparePoints (first second : IrregularPoint F) : Ordering :=
  (compare first.y second.y).then (compare first.x second.x)

def rotateToStableStart (points : List (IrregularPoint F)) : List (IrregularPoint F) :=
  CyclicStart.fromStart comparePoints points

def polygonKey (polygon : IrregularPolygon F) : String :=
  "|".intercalate (polygon.points.map fun point =>
    JsMath.numberToJsString point.x ++ (":" ++ JsMath.numberToJsString point.y))

/-- By the first points, then by the texts. -/
def comparePolygons (first second : IrregularPolygon F) : Ordering :=
  match first.points.head?, second.points.head? with
  | some firstPoint, some secondPoint =>
      if firstPoint.y ≠ secondPoint.y then
        if firstPoint.y < secondPoint.y then .lt else .gt
      else if firstPoint.x ≠ secondPoint.x then
        if firstPoint.x < secondPoint.x then .lt else .gt
      else localeCompareKeys (polygonKey first) (polygonKey second)
  | _, _ => compare first.points.length second.points.length

def compareRegions (first second : FreeMaterialRegion F) : Ordering :=
  comparePolygons first.boundary second.boundary

/-- A grid point in millimetres. -/
def pointFromGrid (point : CanonicalGridPoint) : IrregularPoint F :=
  ⟨fromGrid point.x, fromGrid point.y⟩

def polygonFromPath (path : CanonicalGridPath) (label : String) :
    Except String (IrregularPolygon F) := do
  let normalizedPath := normalizeClipperOutputPath path
  (validateCoordinateGuard normalizedPath).mapError fun guard => label ++ (": " ++ guard)
  validateClipperOutputPath normalizedPath label
  return ⟨rotateToStableStart (normalizedPath.map pointFromGrid)⟩

def holeFromNode (hole : PolyTree) : Except String (IrregularPolygon F) :=
  match hole.polygon with
  | none => .error "Clipper2 returned a hole node without a path."
  | some holePath => polygonFromPath holePath "free-material hole"

/-- The region of one child, when it is an outer path. -/
def regionFromChild (level : ℕ) (childPolygon : CanonicalGridPath) (children : List PolyTree) :
    Except String (List (FreeMaterialRegion F)) := do
  if PolyTree.isHole level then
    return []
  let boundary ← polygonFromPath childPolygon "free-material boundary"
  let holes ← (if PolyTree.isHole (level + 1) then children else []).mapM holeFromNode
  return [⟨boundary, holes⟩]

mutual

/-- One turn of the loop: the regions of a child on the level and of what is inside it. -/
def collectChild (level : ℕ) : PolyTree → Except String (List (FreeMaterialRegion F))
  | .node none _ => .error "Clipper2 returned a polygon node without a path."
  | .node (some childPolygon) children => do
      let own ← regionFromChild level childPolygon children
      let below ← collectTreeChildren (level + 1) children
      return own ++ below

/-- `collect_tree_children`, the children being on the level. -/
def collectTreeChildren (level : ℕ) :
    List PolyTree → Except String (List (FreeMaterialRegion F))
  | [] => .ok []
  | child :: rest => do
      let first ← collectChild level child
      let later ← collectTreeChildren level rest
      return first ++ later

end

def regionsFromTree (tree : PolyTree) : Except String (List (FreeMaterialRegion F)) :=
  collectTreeChildren 1 tree.children

/-! ## §3  Snapshots -/

def sortHoles (region : FreeMaterialRegion F) : FreeMaterialRegion F :=
  { region with
    holes := region.holes.mergeSort fun first second => comparePolygons first second != .gt }

/-- Stable, as the sort of the source. -/
def orderRegions (regions : List (FreeMaterialRegion F)) : List (FreeMaterialRegion F) :=
  (regions.mergeSort fun first second => compareRegions first second != .gt).map sortHoles

/-- `derive_snapshot_from_difference`, of the difference. -/
def snapshotFromTree (sheet : SheetSpec F) (tree : PolyTree) (operation : String) :
    Except IrregularGeometryInputError (FreeMaterialSnapshot F) := do
  let regions ← (regionsFromTree tree).mapError (fail operation)
  return ⟨sheet, orderRegions regions, []⟩

def deriveSnapshotFromDifference (booleanOpWithPolyTree : BooleanOp) (sheet : SheetSpec F)
    (subjectPaths : List CanonicalGridPath) (clipPaths : Option (List CanonicalGridPath))
    (operation : String) : Except IrregularGeometryInputError (FreeMaterialSnapshot F) :=
  snapshotFromTree sheet (booleanOpWithPolyTree .difference subjectPaths clipPaths .nonZero)
    operation

def validateUnionPath (entry : CanonicalGridPath × ℕ) : Except String Unit := do
  validateCoordinateGuard entry.1
  validateClipperOutputPath entry.1 ("Clipper2 union path " ++ toString entry.2)

def prepareOccupiedClip (booleanOpWithPolyTree : BooleanOp) (operation : FreeMaterialOperation)
    (occupiedPaths : List CanonicalGridPath) :
    Except String (Option (List CanonicalGridPath)) := do
  if occupiedPaths.isEmpty then
    return none
  if operation = .directDifference then
    return some occupiedPaths
  let occupiedUnion :=
    (booleanOpWithPolyTree .union occupiedPaths none .nonZero).polyTreeToPaths64
  if occupiedUnion.isEmpty then
    throw "Clipper2 union returned no occupied geometry for non-empty input."
  occupiedUnion.zipIdx.forM validateUnionPath
  return some occupiedUnion

def toSheetPath (sheet : SheetSpec F) : Except String CanonicalGridPath :=
  match toGridMm sheet.width, toGridMm sheet.height with
  | some width, some height => do
      let path : CanonicalGridPath := [⟨0, 0⟩, ⟨width, 0⟩, ⟨width, height⟩, ⟨0, height⟩]
      validateCoordinateGuard path
      validatePath path "sheet path"
      return path
  | _, _ => .error "sheet dimensions cannot be represented by the Clipper2 integer grid."

/-- A point on the grid, or the error of its polygon. -/
def gridPointOf (label : String) (point : IrregularPoint F) :
    Except String CanonicalGridPoint :=
  match toGridMm point.x, toGridMm point.y with
  | some x, some y => .ok ⟨x, y⟩
  | _, _ => .error (label ++ " cannot be represented by the Clipper2 grid.")

def toMaterialPath (polygon : IrregularPolygon F) (label : String) (counterClockwise : Bool) :
    Except String CanonicalGridPath := do
  let path ← polygon.points.mapM (gridPointOf label)
  let normalizedPath := normalizeClipperOutputPath path
  (validateCoordinateGuard normalizedPath).mapError fun guard => label ++ (": " ++ guard)
  validateClipperOutputPath normalizedPath label
  return canonicalizeWinding normalizedPath counterClockwise

/-- The boundary of one region of the snapshot and its holes. -/
def toRegionPaths (entry : FreeMaterialRegion F × ℕ) :
    Except String (List CanonicalGridPath) := do
  let boundary ← toMaterialPath entry.1.boundary
    ("free-material boundary " ++ toString entry.2) true
  let holes ← entry.1.holes.zipIdx.mapM fun hole =>
    toMaterialPath hole.1
      ("free-material hole " ++ (toString entry.2 ++ (":" ++ toString hole.2))) false
  return boundary :: holes

def toMaterialPaths (snapshot : FreeMaterialSnapshot F) :
    Except String (List CanonicalGridPath) := do
  let paths ← snapshot.regions.zipIdx.mapM toRegionPaths
  return paths.flatten

/-- A point of a placed polygon: added in millimetres, then rounded once. -/
def placedGridPoint (label : String) (transform : IrregularTransform F)
    (point : IrregularPoint F) : Except String CanonicalGridPoint :=
  let translatedX := point.x + transform.translateX
  let translatedY := point.y + transform.translateY
  if !JsNumber.isFinite translatedX || !JsNumber.isFinite translatedY then
    .error (label ++ " translation is not finite.")
  else gridPointOf label ⟨translatedX, translatedY⟩

def toPlacedPath (placed : IrregularPlacedPiece F) (index : ℕ) :
    Except String CanonicalGridPath := do
  let label := "placed collision polygon " ++ toString index
  match validateStrictBoundary placed.collisionGeometry.polygon.points with
  | .invalid message => throw (label ++ (" " ++ message))
  | .valid _ => pure ()
  let path ← placed.collisionGeometry.polygon.points.mapM
    (placedGridPoint label placed.placement.transform)
  validateCoordinateGuard path
  validatePath path label
  return canonicalizeCounterClockwise path

def computeFreeMaterial (booleanOpWithPolyTree : BooleanOp) (input : ComputeFreeMaterialInput F)
    (operation : FreeMaterialOperation) :
    Except IrregularGeometryInputError (FreeMaterialSnapshot F) := do
  let sheetPath ← (toSheetPath input.sheet).mapError (fail "computeFreeMaterial")
  let occupiedPaths ← (input.placed.zipIdx.mapM fun entry =>
    toPlacedPath entry.1 entry.2).mapError (fail "computeFreeMaterial")
  let occupiedClip ← (prepareOccupiedClip booleanOpWithPolyTree operation
    occupiedPaths).mapError (fail "computeFreeMaterial")
  deriveSnapshotFromDifference booleanOpWithPolyTree input.sheet [sheetPath] occupiedClip
    "computeFreeMaterial"

def computeFreeMaterialLive (booleanOpWithPolyTree : BooleanOp)
    (input : ComputeFreeMaterialInput F) :
    Except IrregularGeometryInputError (FreeMaterialSnapshot F) :=
  computeFreeMaterial booleanOpWithPolyTree input .unionThenDifference

/-- The path of the sheet is only checked. -/
def extendFreeMaterial (booleanOpWithPolyTree : BooleanOp) (input : ExtendFreeMaterialInput F) :
    Except IrregularGeometryInputError (FreeMaterialSnapshot F) := do
  let _ ← (toSheetPath input.parent.sheet).mapError (fail "extendFreeMaterial")
  let materialPaths ← (toMaterialPaths input.parent).mapError (fail "extendFreeMaterial")
  let placedPath ← (toPlacedPath input.placed 0).mapError (fail "extendFreeMaterial")
  deriveSnapshotFromDifference booleanOpWithPolyTree input.parent.sheet materialPaths
    (some [placedPath]) "extendFreeMaterial"

end PolygonNesting.FreeMaterial
