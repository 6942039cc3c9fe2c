import PolygonNesting.Canonical.Token
import PolygonNesting.Geometry.Convex

/-!
# Shared boundary of convex polygons

How much boundary two translated convex polygons share: the length of the
collinear overlaps of their edges, the length in units of the shorter longest
edge, and a signature for every near-complete overlap of two structural edges.
-/

namespace PolygonNesting

variable {F : Type} [LinearOrder F] [Zero F] [One F] [Add F] [Sub F] [Neg F]
  [Mul F] [Div F] [JsMath F]

structure SharedConvexPolygonBoundaryContact (F : Type) where
  lengthMm : F
  normalizedUnits : F
  nearCompleteStructuralContactCount : F
  nearCompleteStructuralContactSignatures : List String
  deriving DecidableEq

structure SharedConvexPolygonBoundarySegment (F : Type) where
  firstEdgeIndex : F
  secondEdgeIndex : F
  start : IrregularPoint F
  finish : IrregularPoint F
  lengthMm : F
  deriving DecidableEq

structure PolygonEdge (F : Type) where
  start : IrregularPoint F
  finish : IrregularPoint F
  startIndex : ℕ
  deriving DecidableEq

/-- `polygon_edges`, with the index of the start vertex. -/
def indexedPolygonEdges (points : List (IrregularPoint F)) : List (PolygonEdge F) :=
  (boundaryEdges points).mapIdx fun index edge => ⟨edge.start, edge.finish, index⟩

structure CollinearOverlapSegment (F : Type) where
  start : IrregularPoint F
  finish : IrregularPoint F
  lengthMm : F
  deriving DecidableEq

def collinearOverlapSegment (first second : PolygonEdge F) :
    Option (CollinearOverlapSegment F) :=
  if orientationOf first.start first.finish second.start != 0 ||
      orientationOf first.start first.finish second.finish != 0 then
    some ⟨first.start, first.start, 0⟩
  else
    let dx := first.finish.x - first.start.x
    let dy := first.finish.y - first.start.y
    let edgeLength := JsMath.hypot dx dy
    if !JsNumber.isFinite edgeLength || decide (edgeLength ≤ 0) then none
    else
      let useX := decide (absolute dy ≤ absolute dx)
      let axisValue (point : IrregularPoint F) := if useX then point.x else point.y
      let firstStart := axisValue first.start
      let firstEnd := axisValue first.finish
      let secondStart := axisValue second.start
      let secondEnd := axisValue second.finish
      let lower := max (min firstStart firstEnd) (min secondStart secondEnd)
      let upper := min (max firstStart firstEnd) (max secondStart secondEnd)
      let overlappingAxisLength := upper - lower
      if !JsNumber.isFinite overlappingAxisLength ||
          decide (overlappingAxisLength ≤ 0) then
        some ⟨first.start, first.start, 0⟩
      else
        let firstAxisLength := absolute (firstEnd - firstStart)
        if !JsNumber.isFinite firstAxisLength || decide (firstAxisLength ≤ 0) then
          none
        else
          let overlapLength := overlappingAxisLength * edgeLength / firstAxisLength
          if !JsNumber.isFinite overlapLength then none
          else
            let endpoints := [first.start, first.finish, second.start, second.finish]
            do
              let start ← endpoints.find? fun point => decide (axisValue point = lower)
              let finish ← endpoints.find? fun point => decide (axisValue point = upper)
              some ⟨start, finish, overlapLength⟩

/-- Every pair of edges, in source order, up to the first that fails. -/
def sharedConvexPolygonBoundarySegments
    (first second : IrregularPolygonWithBounds F) :
    Option (List (SharedConvexPolygonBoundarySegment F)) :=
  if areDisjoint first.bounds second.bounds then some []
  else do
    let overlaps ← ((indexedPolygonEdges first.polygon.points).flatMap fun firstEdge =>
      (indexedPolygonEdges second.polygon.points).map fun secondEdge =>
        (firstEdge, secondEdge)).mapM fun (firstEdge, secondEdge) =>
          (collinearOverlapSegment firstEdge secondEdge).map fun overlap =>
            (⟨JsNumber.ofNat firstEdge.startIndex, JsNumber.ofNat secondEdge.startIndex,
              overlap.start, overlap.finish, overlap.lengthMm⟩ :
              SharedConvexPolygonBoundarySegment F)
    some (overlaps.filter fun segment => decide (0 < segment.lengthMm))

def sharedConvexPolygonBoundaryLength
    (first second : IrregularPolygonWithBounds F) : Option F := do
  let segments ← sharedConvexPolygonBoundarySegments first second
  let totalLength := segments.foldl (fun sum segment => sum + segment.lengthMm) 0
  if JsNumber.isFinite totalLength then some totalLength else none

/-- A distance that is finite and positive. -/
def positiveDistance (dx dy : F) : Option F :=
  let distance := JsMath.hypot dx dy
  if JsNumber.isFinite distance && decide (0 < distance) then some distance else none

def polygonEdgeLength (edge : PolygonEdge F) : Option F :=
  positiveDistance (edge.finish.x - edge.start.x) (edge.finish.y - edge.start.y)

def pointDistance (first second : IrregularPoint F) : Option F :=
  positiveDistance (second.x - first.x) (second.y - first.y)

def longestPolygonEdgeLength (points : List (IrregularPoint F)) : Option F := do
  let lengths ← (indexedPolygonEdges points).mapM polygonEdgeLength
  let longest := lengths.foldl max 0
  if 0 < longest then some longest else none

/-! ## §1  Signatures -/

def signatureScale : F := JsNumber.ofNat 1000

/-- 0.5 -/
def minStructuralEdgeLengthRatio : F := half

/-- 0.95 -/
def minNearCompleteEdgeOverlapRatio : F := JsNumber.ofNat 95 / JsNumber.ofNat 100

def turnCosine (previous vertex next : IrregularPoint F) : Option F :=
  let previousX := previous.x - vertex.x
  let previousY := previous.y - vertex.y
  let nextX := next.x - vertex.x
  let nextY := next.y - vertex.y
  let denominator := JsMath.hypot previousX previousY * JsMath.hypot nextX nextY
  if !JsNumber.isFinite denominator || decide (denominator ≤ 0) then none
  else
    let cosine := (previousX * nextX + previousY * nextY) / denominator
    if JsNumber.isFinite cosine then some (max (-1) (min 1 cosine)) else none

def ratioSignatureKey (value longestEdgeMm : F) : Option F :=
  let key := round (value / longestEdgeMm * signatureScale)
  if isSafeInteger key then some key else none

/-- The two texts in code-unit order, with a separator between. -/
def joinOrdered (separator first second : String) : String :=
  if cmpJsCodeUnits first second != .gt then first ++ separator ++ second
  else second ++ separator ++ first

/-- The neighbouring vertices are taken from the vertex list: the one before
the start, and the one after the end, two past the start. -/
def structuralEdgeDescriptor (edge : PolygonEdge F)
    (points : List (IrregularPoint F)) (longestEdgeMm : F) : Option String := do
  let previousPoint ← points[(edge.startIndex + points.length - 1) % points.length]?
  let nextPoint ← points[(edge.startIndex + 2) % points.length]?
  let edgeLength ← polygonEdgeLength edge
  let previousLength ← pointDistance previousPoint edge.start
  let nextLength ← pointDistance edge.finish nextPoint
  let startTurn ← turnCosine previousPoint edge.start edge.finish
  let endTurn ← turnCosine edge.start edge.finish nextPoint
  let edgeRatioKey ← ratioSignatureKey edgeLength longestEdgeMm
  let previousRatioKey ← ratioSignatureKey previousLength longestEdgeMm
  let nextRatioKey ← ratioSignatureKey nextLength longestEdgeMm
  let startTurnKey := round (startTurn * signatureScale)
  let endTurnKey := round (endTurn * signatureScale)
  if !isSafeInteger startTurnKey || !isSafeInteger endTurnKey then none
  else
    let endpoint (ratioKey turnKey : F) :=
      JsMath.numberToJsString ratioKey ++ ":" ++ JsMath.numberToJsString turnKey
    some (JsMath.numberToJsString edgeRatioKey ++ ":" ++
      joinOrdered ":" (endpoint previousRatioKey startTurnKey)
        (endpoint nextRatioKey endTurnKey))

def structuralContactSignature (firstEdge secondEdge : PolygonEdge F)
    (firstPoints secondPoints : List (IrregularPoint F))
    (firstLongestEdgeMm secondLongestEdgeMm : F) : Option String := do
  let firstDescriptor ←
    structuralEdgeDescriptor firstEdge firstPoints firstLongestEdgeMm
  let secondDescriptor ←
    structuralEdgeDescriptor secondEdge secondPoints secondLongestEdgeMm
  some (joinOrdered "|" firstDescriptor secondDescriptor)

/-- The signature of one pair of edges, if it has one. -/
def pairSignature (firstPoints secondPoints : List (IrregularPoint F))
    (firstLongestEdgeMm secondLongestEdgeMm : F) (firstEdge secondEdge : PolygonEdge F)
    (firstLength : F) : Option (List String) := do
  let secondLength ← polygonEdgeLength secondEdge
  if secondLength < secondLongestEdgeMm * minStructuralEdgeLengthRatio then some []
  else do
    let overlap ← collinearOverlapSegment firstEdge secondEdge
    if min firstLength secondLength * minNearCompleteEdgeOverlapRatio ≤
        overlap.lengthMm then do
      let signature ← structuralContactSignature firstEdge secondEdge firstPoints
        secondPoints firstLongestEdgeMm secondLongestEdgeMm
      some [signature]
    else some []

/-- `derive_near_complete_structural_contact_signatures`. -/
def deriveNearCompleteStructuralContactSignatures
    (firstPoints secondPoints : List (IrregularPoint F))
    (firstLongestEdgeMm secondLongestEdgeMm : F) : Option (List String) := do
  let rows ← (indexedPolygonEdges firstPoints).mapM fun firstEdge => do
    let firstLength ← polygonEdgeLength firstEdge
    if firstLength < firstLongestEdgeMm * minStructuralEdgeLengthRatio then some []
    else do
      let signatures ← (indexedPolygonEdges secondPoints).mapM fun secondEdge =>
        pairSignature firstPoints secondPoints firstLongestEdgeMm
          secondLongestEdgeMm firstEdge secondEdge firstLength
      some signatures.flatten
  some rows.flatten

/-! ## §2  The contact -/

def noContact : SharedConvexPolygonBoundaryContact F := ⟨0, 0, 0, []⟩

def measureSharedConvexPolygonBoundaryContact
    (first second : IrregularPolygonWithBounds F) :
    Option (SharedConvexPolygonBoundaryContact F) := do
  let lengthMm ← sharedConvexPolygonBoundaryLength first second
  if lengthMm = 0 then some noContact
  else do
    let firstLongest ← longestPolygonEdgeLength first.polygon.points
    let secondLongest ← longestPolygonEdgeLength second.polygon.points
    let normalizedUnits := lengthMm / min firstLongest secondLongest
    if !JsNumber.isFinite normalizedUnits || decide (normalizedUnits < 0) then none
    else do
      let signatures ← deriveNearCompleteStructuralContactSignatures
        first.polygon.points second.polygon.points firstLongest secondLongest
      some ⟨lengthMm, normalizedUnits, JsNumber.ofNat signatures.length, signatures⟩

/-- Polygons with disjoint bounds share nothing, exactly. -/
theorem measure_of_disjoint {first second : IrregularPolygonWithBounds F}
    (hzero : JsNumber.isFinite (0 : F) = true)
    (h : areDisjoint first.bounds second.bounds = true) :
    measureSharedConvexPolygonBoundaryContact first second = some noContact := by
  simp [measureSharedConvexPolygonBoundaryContact,
    sharedConvexPolygonBoundaryLength, sharedConvexPolygonBoundarySegments, h, hzero]

end PolygonNesting
