import PolygonNesting.Canonical.GridHull
import PolygonNesting.Checkpoints.CanonicalJson

/-!
# Gap regions of a partial layout

The convex hull of the placed pieces minus the pieces, cut into regions on the canonical grid,
and the test whether a candidate placement lies in one of them.  The hot path puts a bounding-box
test in front of the polygon difference.

The boolean operation of the Clipper port is a parameter that returns its tree of paths.
-/

namespace PolygonNesting

open Binary64

/-! ## §1  The Clipper tree -/

inductive ClipType where
  | noClip
  | intersection
  | union
  | difference
  | xor
  deriving DecidableEq

inductive FillRule where
  | evenOdd
  | nonZero
  | positive
  | negative
  deriving DecidableEq

/-- A node of the result, with its path and the nodes inside it. -/
inductive PolyTree where
  | node (polygon : Option CanonicalGridPath) (children : List PolyTree)

namespace PolyTree

def polygon : PolyTree → Option CanonicalGridPath
  | node polygon _ => polygon

def children : PolyTree → List PolyTree
  | node _ children => children

/-- `is_hole`: on every second level below the root. -/
def isHole (level : ℕ) : Bool := level != 0 && level % 2 == 0

mutual

/-- `add_poly_node_to_paths`. -/
def addPolyNodeToPaths : PolyTree → List CanonicalGridPath
  | node polygon children =>
      polygon.toList.filter (fun path => !path.isEmpty) ++ addPolyNodesToPaths children

def addPolyNodesToPaths : List PolyTree → List CanonicalGridPath
  | [] => []
  | child :: rest => addPolyNodeToPaths child ++ addPolyNodesToPaths rest

end

def polyTreeToPaths64 (tree : PolyTree) : List CanonicalGridPath :=
  addPolyNodesToPaths tree.children

mutual

/-- The doubled areas of the outer paths below a node of the level before. -/
def visitPositiveDoubledArea (level : ℕ) : PolyTree → ℤ
  | node _ children => visitChildren (level + 1) children

def visitChildren (level : ℕ) : List PolyTree → ℤ
  | [] => 0
  | child :: rest =>
      (match isHole level, child with
        | false, node (some path) _ => canonicalGridAbsoluteDoubledArea path
        | _, _ => 0) +
        visitPositiveDoubledArea level child + visitChildren level rest

end

/-- `total_positive_doubled_area`, from the root. -/
def totalPositiveDoubledArea (tree : PolyTree) : ℤ := visitPositiveDoubledArea 0 tree

end PolyTree

/-- `boolean_op_with_poly_tree`. -/
abbrev BooleanOp :=
  ClipType → List CanonicalGridPath → Option (List CanonicalGridPath) → FillRule → PolyTree

/-! ## §2  Regions -/

inductive CanonicalIntrinsicGapRegionKind where
  | enclosedCavity
  | hullOpenGap
  deriving DecidableEq

/-- In grid units, not in millimetres. -/
structure CanonicalIntrinsicGapRegionAabb where
  minX : ℤ
  minY : ℤ
  maxX : ℤ
  maxY : ℤ
  deriving DecidableEq

structure CanonicalIntrinsicGapRegion (F : Type) where
  kind : CanonicalIntrinsicGapRegionKind
  boundary : CanonicalGridPath
  holes : List CanonicalGridPath
  areaMm2 : F
  doubledAreaGrid2 : ℤ
  aabb : CanonicalIntrinsicGapRegionAabb
  canonicalKey : String

def canonicalGridCounterClockwise (path : CanonicalGridPath) : CanonicalGridPath :=
  if 0 ≤ canonicalGridSignedDoubledArea path then path else path.reverse

def canonicalGridClockwise (path : CanonicalGridPath) : CanonicalGridPath :=
  if canonicalGridSignedDoubledArea path ≤ 0 then path else path.reverse

def extendAabb (aabb : CanonicalIntrinsicGapRegionAabb) (point : CanonicalGridPoint) :
    CanonicalIntrinsicGapRegionAabb where
  minX := min aabb.minX point.x
  minY := min aabb.minY point.y
  maxX := max aabb.maxX point.x
  maxY := max aabb.maxY point.y

def pathBounds : CanonicalGridPath → Option CanonicalIntrinsicGapRegionAabb
  | [] => none
  | first :: rest => some (rest.foldl extendAabb ⟨first.x, first.y, first.x, first.y⟩)

def canonicalGridPointOnSegment (point start finish : CanonicalGridPoint) : Bool :=
  decide (gridCross start finish point = 0) &&
    decide (min start.x finish.x ≤ point.x) && decide (point.x ≤ max start.x finish.x) &&
    decide (min start.y finish.y ≤ point.y) && decide (point.y ≤ max start.y finish.y)

def pathTouchesBoundary (path boundary : CanonicalGridPath) : Bool :=
  path.any fun point =>
    (boundary.zip (boundary.rotate 1)).any fun (start, finish) =>
      canonicalGridPointOnSegment point start finish

variable {F : Type} [LinearOrder F] [Zero F] [One F] [Add F] [Sub F] [Neg F] [Mul F] [Div F]
  [JsMath F]

def doubledGridAreaToMm2 (doubledAreaGrid2 : ℤ) : Option F :=
  let areaMm2 : F := JsMath.ofInt doubledAreaGrid2 / JsNumber.ofNat 2000000
  if JsNumber.isFinite areaMm2 then some areaMm2 else none

/-- The region of an outer path and the paths of its holes. -/
def gapRegion (hull childPath : CanonicalGridPath) (holes : List CanonicalGridPath) :
    Option (CanonicalIntrinsicGapRegion F) := do
  let netDoubledArea := canonicalGridAbsoluteDoubledArea childPath -
    (holes.map canonicalGridAbsoluteDoubledArea).sum
  let aabb ← pathBounds childPath
  let areaMm2 ← doubledGridAreaToMm2 netDoubledArea
  if netDoubledArea ≤ 0 then none
  else
    let boundary := canonicalGridCounterClockwise childPath
    let orderedHoles := (holes.map canonicalGridClockwise).mergeSort fun first second =>
      localeCompareKeys (canonicalRing first) (canonicalRing second) != .gt
    some {
      kind := if pathTouchesBoundary boundary hull then .hullOpenGap else .enclosedCavity
      boundary := boundary
      holes := orderedHoles
      areaMm2 := areaMm2
      doubledAreaGrid2 := netDoubledArea
      aabb := aabb
      canonicalKey := canonicalRing boundary ++ "|" ++
        "|".intercalate (orderedHoles.map canonicalRing) }

/-- The region of one child, when it is an outer path. -/
def childRegion (hull : CanonicalGridPath) (level : ℕ) :
    PolyTree → Option (List (CanonicalIntrinsicGapRegion F))
  | .node (some childPath) children =>
      if PolyTree.isHole level then some []
      else
        let holes := if PolyTree.isHole (level + 1) then children.filterMap PolyTree.polygon else []
        (gapRegion hull childPath holes).map fun region => [region]
  | .node none _ => some []

mutual

/-- `collect_regions`: `none` when one of the regions is not representable. -/
def collectRegions (hull : CanonicalGridPath) (level : ℕ) :
    PolyTree → Option (List (CanonicalIntrinsicGapRegion F))
  | .node _ children => collectChildren hull (level + 1) children

def collectChildren (hull : CanonicalGridPath) (level : ℕ) :
    List PolyTree → Option (List (CanonicalIntrinsicGapRegion F))
  | [] => some []
  | child :: rest => do
      let own ← childRegion hull level child
      let below ← collectRegions hull level child
      let later ← collectChildren hull level rest
      some (own ++ below ++ later)

end

/-- By net area, then by key. -/
def compareGapRegions (first second : CanonicalIntrinsicGapRegion F) : Ordering :=
  (compare first.doubledAreaGrid2 second.doubledAreaGrid2).then
    (localeCompareKeys first.canonicalKey second.canonicalKey)

/-- `placed_path`: add in millimetres, round once, counter-clockwise. -/
def placedPath (placed : IrregularPlacedPiece F) : Option CanonicalGridPath := do
  let path ← placed.collisionGeometry.polygon.points.mapM fun point => do
    let x ← toGridMm (point.x + placed.placement.transform.translateX)
    let y ← toGridMm (point.y + placed.placement.transform.translateY)
    some (⟨x, y⟩ : CanonicalGridPoint)
  if 3 ≤ path.length ∧ canonicalGridSignedDoubledArea path ≠ 0 then
    some (canonicalGridCounterClockwise path)
  else none

/-- The hull of grid points, with the text of a number as parameter. -/
def gridConvexHull (numberToJsString : Number → String) (points : CanonicalGridPath) :
    Option CanonicalGridPath :=
  (canonicalGridConvexHull numberToJsString (points.map numberPoint)).map
    (·.map safePointToBigint)

/-- `derive_canonical_intrinsic_gap_regions`: the hull minus the occupied union. -/
def deriveCanonicalIntrinsicGapRegions (numberToJsString : Number → String)
    (booleanOpWithPolyTree : BooleanOp) (placed : List (IrregularPlacedPiece F)) :
    Option (List (CanonicalIntrinsicGapRegion F)) := do
  let occupied ← placed.mapM placedPath
  let hull ← gridConvexHull numberToJsString occupied.flatten
  if hull.length < 3 then some []
  else
    let occupiedTree := booleanOpWithPolyTree .union occupied none .evenOdd
    let gapTree := booleanOpWithPolyTree .difference [canonicalGridCounterClockwise hull]
      (some occupiedTree.polyTreeToPaths64) .nonZero
    let regions ← collectRegions hull 0 gapTree
    some (regions.mergeSort fun first second => compareGapRegions first second != .gt)

/-! ## §3  Containment -/

/-- The solid of a region: its boundary counter-clockwise, its holes clockwise. -/
def CanonicalIntrinsicGapRegion.solid (region : CanonicalIntrinsicGapRegion F) :
    List CanonicalGridPath :=
  canonicalGridCounterClockwise region.boundary :: region.holes.map canonicalGridClockwise

/-- A candidate on the grid: every point is moved in millimetres and rounded once. -/
def candidatePath (moving : TransformedCollisionGeometry F) (point : IrregularPoint F) :
    Option CanonicalGridPath :=
  moving.polygon.points.mapM fun sourcePoint => do
    let x ← toGridMm (sourcePoint.x + point.x)
    let y ← toGridMm (sourcePoint.y + point.y)
    some ⟨x, y⟩

/-- `candidate_contained_in_intrinsic_gap`: the candidate minus the solid has no area. -/
def candidateContainedInIntrinsicGap (booleanOpWithPolyTree : BooleanOp)
    (moving : TransformedCollisionGeometry F) (point : IrregularPoint F)
    (region : CanonicalIntrinsicGapRegion F) : Bool :=
  match candidatePath moving point with
  | none => false
  | some path =>
      let difference := booleanOpWithPolyTree .difference [canonicalGridCounterClockwise path]
        (some region.solid) .nonZero
      decide (difference.totalPositiveDoubledArea = 0)

/-- The box of the candidate on the grid, from the bounds of its geometry. -/
def candidateAabb (moving : TransformedCollisionGeometry F) (point : IrregularPoint F) :
    Option CanonicalIntrinsicGapRegionAabb := do
  let minX ← toGridMm (moving.bounds.minX + point.x)
  let minY ← toGridMm (moving.bounds.minY + point.y)
  let maxX ← toGridMm (moving.bounds.maxX + point.x)
  let maxY ← toGridMm (moving.bounds.maxY + point.y)
  some ⟨minX, minY, maxX, maxY⟩

/-- The prefilter: a box inside another. -/
def CanonicalIntrinsicGapRegionAabb.within (aabb outer : CanonicalIntrinsicGapRegionAabb) : Bool :=
  decide (outer.minX ≤ aabb.minX) && decide (outer.minY ≤ aabb.minY) &&
    decide (aabb.maxX ≤ outer.maxX) && decide (aabb.maxY ≤ outer.maxY)

def candidateContainedInIntrinsicGapPrechecked (booleanOpWithPolyTree : BooleanOp)
    (moving : TransformedCollisionGeometry F) (point : IrregularPoint F)
    (region : CanonicalIntrinsicGapRegion F) : Bool :=
  match candidateAabb moving point with
  | none => false
  | some aabb =>
      aabb.within region.aabb &&
        candidateContainedInIntrinsicGap booleanOpWithPolyTree moving point region

end PolygonNesting
