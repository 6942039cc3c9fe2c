import PolygonNesting.Geometry.Convex

/-!
# Relative no-fit polygons

The boundary of the translations at which a moving ring touches a fixed one,
constructed in two ways: as the hull of all differences of vertices, and by
merging the edges of the two rings in the order of their directions.

A translated boundary is put into canonical form by a peel that drops repeated
and redundant vertices from a doubly linked ring of indices.
-/

namespace PolygonNesting

variable {F : Type} [LinearOrder F] [Zero F] [One F] [Add F] [Sub F] [Neg F] [Div F]
  [JsNumber F]

inductive NfpConstructionAlgorithm where
  | vertexPairHull
  | linearEdgeMerge
  deriving DecidableEq

/-! ## §1  Helpers -/

def origin : IrregularPoint F := ⟨0, 0⟩

def pointAt (points : List (IrregularPoint F)) (index : ℕ) : IrregularPoint F :=
  points.getD index origin

def pointsEqual (firstPoint secondPoint : IrregularPoint F) : Bool :=
  decide (firstPoint.x = secondPoint.x) && decide (firstPoint.y = secondPoint.y)

def pointIsBetween (firstPoint point secondPoint : IrregularPoint F) : Bool :=
  decide (min firstPoint.x secondPoint.x ≤ point.x) &&
    decide (point.x ≤ max firstPoint.x secondPoint.x) &&
    decide (min firstPoint.y secondPoint.y ≤ point.y) &&
    decide (point.y ≤ max firstPoint.y secondPoint.y)

def sumPoints (firstPoint secondPoint : IrregularPoint F) (operation : String) :
    Except String (IrregularPoint F) :=
  let sum : IrregularPoint F := ⟨firstPoint.x + secondPoint.x, firstPoint.y + secondPoint.y⟩
  if !isFinitePoint sum then .error (operation ++ " must produce finite coordinates.")
  else .ok sum

def finitePointsMessage (points : List (IrregularPoint F)) : Option String :=
  if points.all isFinitePoint then none else some "polygon coordinates must be finite."

/-- The loop of `rotate_to_stable_start`: the first point with the least `(y, x)`. -/
def stableStartIndex (points : List (IrregularPoint F)) : ℕ :=
  (List.range' 1 (points.length - 1)).foldl (fun startIndex index =>
    let candidate := pointAt points index
    let current := pointAt points startIndex
    if candidate.y < current.y ∨ candidate.y = current.y ∧ candidate.x < current.x then index
    else startIndex) 0

def rotateToStableStart (points : List (IrregularPoint F)) : List (IrregularPoint F) :=
  points.drop (stableStartIndex points) ++ points.take (stableStartIndex points)

def edgeDirectionHalf (edge : IrregularPoint F) : Int :=
  if 0 < edge.y ∨ edge.y = 0 ∧ 0 ≤ edge.x then 0 else 1

def compareEdgeDirections (firstEdge secondEdge : IrregularPoint F) : Int :=
  let firstHalf := edgeDirectionHalf firstEdge
  let secondHalf := edgeDirectionHalf secondEdge
  if firstHalf ≠ secondHalf then if firstHalf < secondHalf then -1 else 1
  else
    let directionTurn := orientationOf origin firstEdge secondEdge
    if 0 < directionTurn then -1 else if directionTurn < 0 then 1 else 0

/-! ## §2  The canonical ring -/

def threeVerticesMessage : String := "polygon must contain at least three vertices."

/-- The linked ring of indices of `canonicalize_translated_convex_ring`. -/
structure LinkedRing where
  previousIndexes : List ℕ
  nextIndexes : List ℕ
  active : List Bool
  activeCount : ℕ
  deriving DecidableEq

namespace LinkedRing

/-- Every index linked to its neighbours. -/
def initial (length : ℕ) : LinkedRing where
  previousIndexes := (List.range length).map fun index : ℕ => (index + length - 1) % length
  nextIndexes := (List.range length).map fun index : ℕ => (index + 1) % length
  active := List.replicate length true
  activeCount := length

def isActive (ring : LinkedRing) (index : ℕ) : Bool := ring.active.getD index false

def previous (ring : LinkedRing) (index : ℕ) : ℕ := ring.previousIndexes.getD index 0

def next (ring : LinkedRing) (index : ℕ) : ℕ := ring.nextIndexes.getD index 0

/-- Take an index out and link its neighbours. -/
def remove (ring : LinkedRing) (index : ℕ) : LinkedRing where
  previousIndexes := ring.previousIndexes.set (ring.next index) (ring.previous index)
  nextIndexes := ring.nextIndexes.set (ring.previous index) (ring.next index)
  active := ring.active.set index false
  activeCount := ring.activeCount - 1

/-- The vertex repeats a neighbour or lies on the segment between them. -/
def isRedundant (points : List (IrregularPoint F)) (ring : LinkedRing) (index : ℕ) : Bool :=
  let previousPoint := pointAt points (ring.previous index)
  let currentPoint := pointAt points index
  let nextPoint := pointAt points (ring.next index)
  let repeated := pointsEqual previousPoint currentPoint || pointsEqual currentPoint nextPoint
  let collinear := orientationOf previousPoint currentPoint nextPoint == 0 &&
    pointIsBetween previousPoint currentPoint nextPoint
  repeated || collinear

end LinkedRing

/-- The peel: a dropped vertex puts its neighbours back on the list. -/
def peelRing (points : List (IrregularPoint F)) (pendingIndexes : List ℕ) (ring : LinkedRing) :
    Except String LinkedRing :=
  match pendingIndexes with
  | [] => .ok ring
  | currentIndex :: rest =>
      if !ring.isActive currentIndex then peelRing points rest ring
      else if ring.activeCount < 3 then .error threeVerticesMessage
      else if !ring.isRedundant points currentIndex then peelRing points rest ring
      else if ring.activeCount - 1 < 3 then .error threeVerticesMessage
      else peelRing points (rest ++ [ring.previous currentIndex, ring.next currentIndex])
        (ring.remove currentIndex)
termination_by (ring.activeCount, pendingIndexes.length)
decreasing_by
  · exact Prod.Lex.right _ (Nat.lt_succ_self _)
  · exact Prod.Lex.right _ (Nat.lt_succ_self _)
  · refine Prod.Lex.left _ _ ?_
    simp only [LinkedRing.remove]
    omega

/-- The loop that walks the linked ring once around. -/
def collectRing (points : List (IrregularPoint F)) (ring : LinkedRing) (firstActiveIndex : ℕ) :
    ℕ → ℕ → List (IrregularPoint F)
  | 0, _ => []
  | fuel + 1, currentIndex =>
      let nextIndex := ring.next currentIndex
      pointAt points currentIndex ::
        if nextIndex = firstActiveIndex then []
        else collectRing points ring firstActiveIndex fuel nextIndex

def canonicalizeTranslatedConvexRing (points : List (IrregularPoint F)) :
    Except String (IrregularPolygon F) :=
  if points.length < 3 then .error threeVerticesMessage
  else
    match peelRing points (List.range points.length) (LinkedRing.initial points.length) with
    | .error message => .error message
    | .ok ring =>
        match ring.active.findIdx? id with
        | none => .error threeVerticesMessage
        | some firstActiveIndex =>
            if ring.activeCount < 3 then .error threeVerticesMessage
            else
              -- one round of the ring visits as many indices as there are points at most
              let canonicalPoints :=
                collectRing points ring firstActiveIndex points.length firstActiveIndex
              if canonicalPoints.length ≠ ring.activeCount then
                .error "polygon points must form a closed boundary."
              else
                match validateStrictBoundary canonicalPoints with
                | .invalid message => .error message
                | .valid _ => .ok ⟨rotateToStableStart canonicalPoints⟩

def canonicalizeTranslatedConvexRingWithHullFallback (points : List (IrregularPoint F)) :
    Except String (IrregularPolygon F) :=
  let boundary := computeConvexHull points
  match validateStrictBoundary boundary.points with
  | .invalid message => .error message
  | .valid _ => .ok ⟨rotateToStableStart boundary.points⟩

/-! ## §3  The two constructions -/

structure ValidatedRelativeNfpInputs where
  fixedWinding : ConvexPolygonWinding
  movingWinding : ConvexPolygonWinding

def validateRelativeNfpInputs (fixedPoints movingPoints : List (IrregularPoint F)) :
    Except String ValidatedRelativeNfpInputs :=
  match finitePointsMessage fixedPoints, finitePointsMessage movingPoints with
  | some message, _ => .error message
  | none, some message => .error message
  | none, none =>
      match validateStrictBoundary fixedPoints, validateStrictBoundary movingPoints with
      | .invalid message, _ => .error message
      | .valid _, .invalid message => .error message
      | .valid fixedWinding, .valid movingWinding => .ok ⟨fixedWinding, movingWinding⟩

def negatedPoints (points : List (IrregularPoint F)) : List (IrregularPoint F) :=
  points.map fun point => ⟨-point.x, -point.y⟩

/-- All sums, row by row. -/
def minkowskiPoints (fixedPoints negatedMovingPoints : List (IrregularPoint F)) :
    Except String (List (IrregularPoint F)) :=
  (fixedPoints.flatMap fun fixedPoint => negatedMovingPoints.map fun movingPoint =>
    (fixedPoint, movingPoint)).mapM fun pair => sumPoints pair.1 pair.2 "Minkowski sum"

def computeRelativeNfpBoundaryReference (fixedPoints movingPoints : List (IrregularPoint F)) :
    Except String (IrregularPolygon F) :=
  match validateRelativeNfpInputs fixedPoints movingPoints with
  | .error message => .error message
  | .ok _ =>
      match minkowskiPoints fixedPoints (negatedPoints movingPoints) with
      | .error message => .error message
      | .ok points =>
          let boundary := computeConvexHull points
          match validateStrictBoundary boundary.points with
          | .invalid message => .error message
          | .valid _ => .ok ⟨rotateToStableStart boundary.points⟩

def counterClockwiseStablePoints (points : List (IrregularPoint F))
    (winding : ConvexPolygonWinding) : List (IrregularPoint F) :=
  rotateToStableStart (if winding ≠ 1 then points.reverse else points)

def edgeVectors (points : List (IrregularPoint F)) : Except String (List (IrregularPoint F)) :=
  (List.range points.length).mapM fun index =>
    let start := pointAt points index
    let finish := pointAt points ((index + 1) % points.length)
    let vector : IrregularPoint F := ⟨finish.x - start.x, finish.y - start.y⟩
    if !isFinitePoint vector then
      .error "Minkowski edge arithmetic must produce finite vectors."
    else .ok vector

/-- Which edges the next step of the merge takes. -/
def advanceEdges (fixedEdges movingEdges : List (IrregularPoint F))
    (fixedEdgeIndex movingEdgeIndex : ℕ) : ℕ × ℕ :=
  if fixedEdgeIndex < fixedEdges.length ∧ movingEdgeIndex < movingEdges.length then
    let directionOrder := compareEdgeDirections (pointAt fixedEdges fixedEdgeIndex)
      (pointAt movingEdges movingEdgeIndex)
    (if directionOrder ≤ 0 then fixedEdgeIndex + 1 else fixedEdgeIndex,
      if 0 ≤ directionOrder then movingEdgeIndex + 1 else movingEdgeIndex)
  else if fixedEdgeIndex < fixedEdges.length then (fixedEdgeIndex + 1, movingEdgeIndex)
  else (fixedEdgeIndex, movingEdgeIndex + 1)

omit [One F] [Add F] [Sub F] [Div F] in
/-- A step takes an edge. -/
theorem advanceEdges_lt {fixedEdges movingEdges : List (IrregularPoint F)} {i j : ℕ}
    (h : i < fixedEdges.length ∨ j < movingEdges.length) :
    fixedEdges.length - (advanceEdges fixedEdges movingEdges i j).1 +
        (movingEdges.length - (advanceEdges fixedEdges movingEdges i j).2) <
      fixedEdges.length - i + (movingEdges.length - j) := by
  unfold advanceEdges
  split
  · next hboth =>
    dsimp only
    split
    · split <;> omega
    · next hpos =>
      rw [if_pos (by omega)]
      omega
  · split
    · dsimp only
      omega
    · dsimp only
      omega

/-- The loop of the merge. -/
def mergeBoundaries (fixedBoundary movingBoundary fixedEdges movingEdges :
    List (IrregularPoint F)) (fixedEdgeIndex movingEdgeIndex : ℕ)
    (boundaryPoints : List (IrregularPoint F)) : Except String (List (IrregularPoint F)) :=
  if _h : fixedEdgeIndex < fixedEdges.length ∨ movingEdgeIndex < movingEdges.length then
    let next := advanceEdges fixedEdges movingEdges fixedEdgeIndex movingEdgeIndex
    match sumPoints (pointAt fixedBoundary (next.1 % fixedBoundary.length))
        (pointAt movingBoundary (next.2 % movingBoundary.length)) "Minkowski sum" with
    | .error message => .error message
    | .ok nextSum =>
        mergeBoundaries fixedBoundary movingBoundary fixedEdges movingEdges next.1 next.2
          (if next.1 < fixedEdges.length ∨ next.2 < movingEdges.length then
            boundaryPoints ++ [nextSum]
          else boundaryPoints)
  else .ok boundaryPoints
termination_by (fixedEdges.length - fixedEdgeIndex) + (movingEdges.length - movingEdgeIndex)
decreasing_by exact advanceEdges_lt _h

/-- Reversed unless it is counter-clockwise, and rotated. -/
def counterClockwiseBoundary (points : List (IrregularPoint F))
    (winding : ConvexPolygonWinding) : IrregularPolygon F :=
  ⟨rotateToStableStart (if winding = 1 then points else points.reverse)⟩

/-- The canonical ring of the merged points, when there is one. -/
def canonicalMerge (boundaryPoints : List (IrregularPoint F)) : Option (IrregularPolygon F) :=
  match canonicalizeTranslatedConvexRing boundaryPoints with
  | .error _ => none
  | .ok canonicalBoundary =>
      match validateStrictBoundary canonicalBoundary.points with
      | .invalid _ => none
      | .valid winding => some (counterClockwiseBoundary canonicalBoundary.points winding)

def computeRelativeNfpBoundaryLinear (fixedPoints movingPoints : List (IrregularPoint F)) :
    Except String (IrregularPolygon F) :=
  match validateRelativeNfpInputs fixedPoints movingPoints with
  | .error message => .error message
  | .ok validated => do
      let fixedBoundary := counterClockwiseStablePoints fixedPoints validated.fixedWinding
      let movingBoundary := counterClockwiseStablePoints (negatedPoints movingPoints)
        validated.movingWinding
      let fixedEdges ← edgeVectors fixedBoundary
      let movingEdges ← edgeVectors movingBoundary
      let initialSum ← sumPoints (pointAt fixedBoundary 0) (pointAt movingBoundary 0)
        "Minkowski sum"
      let boundaryPoints ← mergeBoundaries fixedBoundary movingBoundary fixedEdges movingEdges
        0 0 [initialSum]
      match canonicalMerge boundaryPoints with
      | some boundary => .ok boundary
      | none =>
          let boundary := computeConvexHull boundaryPoints
          match validateStrictBoundary boundary.points with
          | .invalid message => .error message
          | .valid winding => .ok (counterClockwiseBoundary boundary.points winding)

def computeRelativeNfpBoundary (fixedPoints movingPoints : List (IrregularPoint F))
    (constructionAlgorithm : NfpConstructionAlgorithm) : Except String (IrregularPolygon F) :=
  match constructionAlgorithm with
  | .linearEdgeMerge => computeRelativeNfpBoundaryLinear fixedPoints movingPoints
  | .vertexPairHull => computeRelativeNfpBoundaryReference fixedPoints movingPoints

end PolygonNesting
