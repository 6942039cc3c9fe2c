import PolygonNesting.Domain
import PolygonNesting.Number

/-!
# Bounds, strict-convex boundary validation and the convex hull

Axis-aligned bounds of translated rings, the strict separation test of two
bounds, the validator every collision ring passes (at least three finite
vertices, no repeated neighbours, a simple ring, one winding), and the hull of
a point cloud.

The simple-ring question has two procedures.  A ring whose corners all turn
the same way, with coordinates in the safe range, is decided by counting how
often its edges stop pointing downwards; any other ring by testing all pairs
of non-adjacent edges.
-/

namespace PolygonNesting

variable {F : Type} [LinearOrder F] [Zero F] [One F] [Add F] [Neg F] [Div F]
  [JsNumber F]

/-! ## §1  Orientation -/

/-- The package's y-down convention: the negated robust determinant. -/
def orient2d (ax ay bx bY cx cy : F) : F :=
  -JsNumber.robustOrient2d ax ay bx bY cx cy

/-- `1` for a left turn from `origin → first` to `origin → second`, `-1` for a
right turn, `0` for collinear points. -/
def orientation (originX originY firstX firstY secondX secondY : F) : Int :=
  let robustResult := orient2d originX originY firstX firstY secondX secondY
  if 0 < robustResult then -1 else if robustResult < 0 then 1 else 0

def orientationOf (origin first second : IrregularPoint F) : Int :=
  orientation origin.x origin.y first.x first.y second.x second.y

/-! ## §2  Bounds -/

structure IrregularPolygonWithBounds (F : Type) where
  polygon : IrregularPolygon F
  bounds : IrregularBounds F
  deriving DecidableEq

def makeBounds (minX minY maxX maxY : F) : Option (IrregularBounds F) :=
  if !JsNumber.isFinite minX || !JsNumber.isFinite minY ||
      !JsNumber.isFinite maxX || !JsNumber.isFinite maxY ||
      decide (maxX < minX) || decide (maxY < minY) then none
  else some ⟨minX, minY, maxX, maxY⟩

def isFinitePoint (point : IrregularPoint F) : Bool :=
  JsNumber.isFinite point.x && JsNumber.isFinite point.y

/-- The running bounds, extended by one more point. -/
def extendBounds (bounds : IrregularBounds F) (point : IrregularPoint F) :
    IrregularBounds F where
  minX := min bounds.minX point.x
  minY := min bounds.minY point.y
  maxX := max bounds.maxX point.x
  maxY := max bounds.maxY point.y

def boundsForPoints (points : List (IrregularPoint F)) : Option (IrregularBounds F) :=
  match points with
  | [] => none
  | first :: rest =>
      if (first :: rest).all isFinitePoint then
        let raw := rest.foldl extendBounds ⟨first.x, first.y, first.x, first.y⟩
        makeBounds raw.minX raw.minY raw.maxX raw.maxY
      else none

def translatePoint (translation point : IrregularPoint F) : IrregularPoint F :=
  ⟨point.x + translation.x, point.y + translation.y⟩

/-- Translate a ring and take its bounds; `none` for an empty ring and for a
coordinate or bounds that are not finite. -/
def translatePolygonWithBounds (polygon : IrregularPolygon F)
    (translation : IrregularPoint F) : Option (IrregularPolygonWithBounds F) :=
  match polygon.points.map (translatePoint translation) with
  | [] => none
  | first :: rest =>
      if (first :: rest).all isFinitePoint then do
        let raw := rest.foldl extendBounds ⟨first.x, first.y, first.x, first.y⟩
        let bounds ← makeBounds raw.minX raw.minY raw.maxX raw.maxY
        some ⟨⟨first :: rest⟩, bounds⟩
      else none

/-- Strict separation on an axis; touching bounds are not disjoint. -/
def areDisjoint (first second : IrregularBounds F) : Bool :=
  decide (first.maxX < second.minX) || decide (second.maxX < first.minX) ||
    decide (first.maxY < second.minY) || decide (second.maxY < first.minY)

/-! ## §3  Strict-convex boundaries -/

/-- `1` counter-clockwise, `-1` clockwise. -/
abbrev ConvexPolygonWinding := Int

inductive StrictConvexBoundaryValidation where
  | valid (winding : ConvexPolygonWinding)
  | invalid (message : String)
  deriving DecidableEq

structure BoundaryEdge (F : Type) where
  start : IrregularPoint F
  finish : IrregularPoint F
  deriving DecidableEq

/-- The edges of the ring in source order, the closing edge last. -/
def boundaryEdges (points : List (IrregularPoint F)) : List (BoundaryEdge F) :=
  match points with
  | [] => []
  | first :: _ => points.zipWith BoundaryEdge.mk (points.tail ++ [first])

structure TurnScan where
  winding : Option ConvexPolygonWinding
  failure : Option String

/-- The corners of the ring, as `(previous, current, next)`, in source order. -/
def corners (points : List (IrregularPoint F)) :
    List (IrregularPoint F × IrregularPoint F × IrregularPoint F) :=
  match points, points.getLast? with
  | first :: _, some last =>
      (last :: points.dropLast).zip (points.zip (points.tail ++ [first]))
  | _, _ => []

/-- Walk the corners and stop at the first one that fails. -/
def scanTurnsFrom : Option ConvexPolygonWinding →
    List (IrregularPoint F × IrregularPoint F × IrregularPoint F) → TurnScan
  | winding, [] => ⟨winding, none⟩
  | winding, (previous, current, next) :: rest =>
      let turn := orientationOf previous current next
      if turn = 0 then
        ⟨winding, some "polygon must not contain collinear vertices."⟩
      else match winding with
        | none => scanTurnsFrom (some turn) rest
        | some established =>
            if turn ≠ established then
              ⟨winding,
                some "polygon must be strictly convex with one consistent winding."⟩
            else scanTurnsFrom (some established) rest

def scanTurns (points : List (IrregularPoint F)) : TurnScan :=
  scanTurnsFrom none (corners points)

def coordinateSupportsLinearTopology (value : F) : Bool :=
  let magnitude := absolute value
  decide (magnitude = 0) ||
    (decide (1 / JsNumber.ofNat (2 ^ 450) ≤ magnitude) &&
      decide (magnitude ≤ JsNumber.ofNat (2 ^ 500)))

def supportsLinearTopologyDecision (points : List (IrregularPoint F)) : Bool :=
  points.all fun point =>
    coordinateSupportsLinearTopology point.x &&
      coordinateSupportsLinearTopology point.y

def pointsDownwards (edge : BoundaryEdge F) : Bool :=
  decide (edge.finish.y < edge.start.y)

/-- How often an edge points downwards and the next one no longer does. -/
def revolutions (edges : List (BoundaryEdge F)) : ℕ :=
  match edges with
  | [] => 0
  | first :: _ => (edges.zip (edges.tail ++ [first])).countP fun pair =>
      pointsDownwards pair.1 && !pointsDownwards pair.2

def completesOneRevolution (edges : List (BoundaryEdge F)) : Bool :=
  revolutions edges == 1

def pointIsOnSegment (point : IrregularPoint F) (segment : BoundaryEdge F) :
    Bool :=
  decide (min segment.start.x segment.finish.x ≤ point.x) &&
    decide (point.x ≤ max segment.start.x segment.finish.x) &&
    decide (min segment.start.y segment.finish.y ≤ point.y) &&
    decide (point.y ≤ max segment.start.y segment.finish.y)

/-- A proper crossing, or any endpoint or collinear contact. -/
def segmentsIntersect (first second : BoundaryEdge F) : Bool :=
  let firstStartTurn := orientationOf first.start first.finish second.start
  let firstEndTurn := orientationOf first.start first.finish second.finish
  let secondStartTurn := orientationOf second.start second.finish first.start
  let secondEndTurn := orientationOf second.start second.finish first.finish
  (firstStartTurn == 0 && pointIsOnSegment second.start first) ||
    (firstEndTurn == 0 && pointIsOnSegment second.finish first) ||
    (secondStartTurn == 0 && pointIsOnSegment first.start second) ||
    (secondEndTurn == 0 && pointIsOnSegment first.finish second) ||
    (firstStartTurn != firstEndTurn && secondStartTurn != secondEndTurn)

def areAdjacentEdges (firstEdgeIndex secondEdgeIndex edgeCount : ℕ) : Bool :=
  secondEdgeIndex == firstEdgeIndex + 1 ||
    (firstEdgeIndex == 0 && secondEdgeIndex == edgeCount - 1)

def hasSelfIntersection (edges : List (BoundaryEdge F)) : Bool :=
  edges.zipIdx.any fun (firstEdge, i) =>
    edges.zipIdx.any fun (secondEdge, j) =>
      decide (i < j) && !areAdjacentEdges i j edges.length &&
        segmentsIntersect firstEdge secondEdge

/-- Diagnostics in the order the source checks them; the turn scan runs before
the simple-ring check, but its failure is reported after it. -/
def validateStrictBoundary (points : List (IrregularPoint F)) :
    StrictConvexBoundaryValidation :=
  if points.length < 3 then
    .invalid "polygon must contain at least three vertices."
  else if points.any fun point => !isFinitePoint point then
    .invalid "polygon coordinates must be finite."
  else
    let edges := boundaryEdges points
    if edges.any fun edge =>
        decide (edge.start.x = edge.finish.x ∧ edge.start.y = edge.finish.y) then
      .invalid "polygon must not repeat adjacent vertices."
    else
      let turnScan := scanTurns points
      let selfIntersects :=
        if turnScan.failure.isNone && supportsLinearTopologyDecision points then
          !completesOneRevolution edges
        else hasSelfIntersection edges
      if selfIntersects then
        .invalid "polygon must form a simple ring without self-intersections."
      else match turnScan.failure, turnScan.winding with
        | some failure, _ => .invalid failure
        | none, some winding => .valid winding
        | none, none => .invalid "polygon must have a non-zero area."

/-! ## §4  The convex hull -/

/-- By `x`, then by `y`. -/
def hullPointLe (left right : IrregularPoint F) : Bool :=
  if left.x ≠ right.x then decide (left.x ≤ right.x) else decide (left.y ≤ right.y)

/-- Of equal neighbours the first is kept.  The list under construction has its
last point first. -/
def deduplicateSortedPoints (points : List (IrregularPoint F)) :
    List (IrregularPoint F) :=
  (points.foldl (fun uniquePoints point =>
    match uniquePoints with
    | previousPoint :: _ =>
        if previousPoint.x = point.x ∧ previousPoint.y = point.y then uniquePoints
        else point :: uniquePoints
    | [] => [point]) []).reverse

/-- The loop that pops while the last two points and the new one do not turn
left.  The hull under construction has its last point first. -/
def popHull (point : IrregularPoint F) :
    List (IrregularPoint F) → List (IrregularPoint F)
  | lastPoint :: previousPoint :: rest =>
      if 0 < orientationOf previousPoint lastPoint point then
        lastPoint :: previousPoint :: rest
      else popHull point (previousPoint :: rest)
  | hull => hull

def buildHullHalf (points : List (IrregularPoint F)) : List (IrregularPoint F) :=
  (points.foldl (fun hull point => point :: popHull point hull) []).reverse

/-- The monotone chain; counter-clockwise from the leftmost lowest point. -/
def computeConvexHull (points : List (IrregularPoint F)) : IrregularPolygon F :=
  let uniquePoints := deduplicateSortedPoints (points.mergeSort hullPointLe)
  if uniquePoints.length ≤ 2 then ⟨uniquePoints⟩
  else
    let lowerHull := buildHullHalf uniquePoints
    let upperHull := buildHullHalf uniquePoints.reverse
    ⟨lowerHull.dropLast ++ upperHull.dropLast⟩

end PolygonNesting
