import PolygonNesting.Capacity.Retention
import PolygonNesting.Validation.Placement

/-!
# One depth of the capacity search

The depth-synchronized beam: at the depth of one prepared piece every retained
state gives a skip successor and up to four placed successors, successors are
deduplicated, pruned against the incumbent, measured and retained.

The candidate generator, the contact score and the topology measurement are
fields of `SearchSubsystems`.  The job pool computes the same values in the
same order (`PooledEvaluation`).  The clocks enter no result and are left out, as
are the trace of the contact fan-out and the control that may abort a call.
-/

namespace PolygonNesting

variable {F : Type} [LinearOrder F] [Zero F] [One F] [Add F] [Sub F] [Neg F]
  [Mul F] [Div F] [JsMath F] {heap : ℕ → IrregularPlacedPiece F}

/-! ## §1  Prepared pieces and candidates -/

/-- `intrinsic_capacity_prepared_piece_id`. -/
def intrinsicCapacityPreparedPieceId (piece : IrregularPreparedPiece F) : PieceId :=
  piece.pieceId.getD piece.sourceId

structure IntrinsicCapacityError where
  operation : String
  message : String
  deriving DecidableEq

inductive CapacitySearchError where
  | capacity (error : IntrinsicCapacityError)
  | geometry (error : IrregularGeometryInputError)
  | abort (error : NfpIfpControlAbortError)
  deriving DecidableEq

def capacityError (operation message : String) : CapacitySearchError :=
  .capacity ⟨operation, message⟩

/-- What the search takes from other subsystems. -/
structure SearchSubsystems (heap : ℕ → IrregularPlacedPiece F)
    extends LayoutAuthority heap where
  resolveTransformedCollisionGeometry : CollisionGeometry F →
    IrregularTransformCandidate F → Except String (TransformedCollisionGeometry F)
  generatePlacementCandidates : List (PlacedArc heap) →
    PlacedCollisionSpatialIndex heap → TransformedCollisionGeometry F →
    Except CapacitySearchError (List (IrregularPlacementCandidate F))
  sharedCollisionBoundaryLengthMm : List (IrregularPlacedPiece F) →
    TransformedCollisionGeometry F → IrregularPlacementCandidate F → Except String F
  measureCanonicalLayoutTopologyExact :
    List (IrregularPlacedPiece F) → Option CanonicalLayoutTopologyExact
  jsonString : String → String

abbrev CapacityState (heap : ℕ → IrregularPlacedPiece F) :=
  IrregularBeamState heap (IrregularPreparedPiece F)

abbrev CapacityEntry (heap : ℕ → IrregularPlacedPiece F) :=
  CapacityBeamEntry heap (IrregularPreparedPiece F)

def transformReasonStr : IrregularTransformReason → String
  | .orthogonal => "orthogonal"
  | .edgeAlignment => "edge_alignment"
  | .configured => "configured"

def transformCandidateOrder (a b : IrregularTransformCandidate F) : Ordering :=
  (compare a.index b.index).then <|
  (compare a.rotationDeg b.rotationDeg).then <|
  (compare a.mirrored b.mirrored).then <|
  cmpJsCodeUnits (transformReasonStr a.reason) (transformReasonStr b.reason)

/-- The first piece goes to the origin. -/
def originAnchorCandidates (moving : TransformedCollisionGeometry F) :
    List (IrregularPlacementCandidate F) :=
  match toGridMm (-moving.bounds.minX), toGridMm (-moving.bounds.minY) with
  | some gridX, some gridY =>
      [⟨moving.sourcePieceId, moving.transform, ⟨fromGrid gridX, fromGrid gridY⟩, []⟩]
  | _, _ => []

/-- `transform_collision_geometry`. -/
def transformCollisionGeometry (subsystems : SearchSubsystems heap)
    (geometry : CollisionGeometry F) (transform : IrregularTransformCandidate F) :
    Except CapacitySearchError (TransformedCollisionGeometry F) :=
  match subsystems.resolveTransformedCollisionGeometry geometry transform with
  | .ok moving => .ok moving
  | .error message => .error (.geometry ⟨"transformCollisionGeometry", message⟩)

/-- The candidates of one state for one transformed piece. -/
def legalCandidates (subsystems : SearchSubsystems heap) (state : CapacityState heap)
    (moving : TransformedCollisionGeometry F) :
    Except CapacitySearchError (List (IrregularPlacementCandidate F)) :=
  if state.placedCollisionGeometries.isEmpty then .ok (originAnchorCandidates moving)
  else subsystems.generatePlacementCandidates state.placedCollisionGeometries
    state.placedCollisionIndex moving

/-! ## §2  Evaluating candidates -/

structure EvaluatedCandidateReference (F : Type) where
  moving : TransformedCollisionGeometry F
  candidate : IrregularPlacementCandidate F
  maximumSideGrid : ℤ
  envelopeAreaGrid2 : ℤ
  envelopeSpanGrid : ℤ
  transformOrdinal : ℕ
  gridX : ℤ
  gridY : ℤ
  widthGrid : ℤ
  heightGrid : ℤ
  sharedBoundaryLengthMm : Option F
  deriving DecidableEq

/-- `evaluate_candidate`: the envelope the candidate would give. -/
def evaluateCandidate (entry : CapacityEntry heap)
    (moving : TransformedCollisionGeometry F)
    (candidate : IrregularPlacementCandidate F) (transformOrdinal : ℕ) :
    Option (EvaluatedCandidateReference F) := do
  let parentBounds ← entry.state.translatedCollisionBounds
  let movingMinX := moving.bounds.minX + candidate.point.x
  let movingMinY := moving.bounds.minY + candidate.point.y
  let movingMaxX := moving.bounds.maxX + candidate.point.x
  let movingMaxY := moving.bounds.maxY + candidate.point.y
  let isFirstPlacement := entry.state.placedCollisionGeometries.isEmpty
  let minXGrid ← toGridMm
    (if isFirstPlacement then movingMinX else min parentBounds.minX movingMinX)
  let minYGrid ← toGridMm
    (if isFirstPlacement then movingMinY else min parentBounds.minY movingMinY)
  let maxXGrid ← toGridMm
    (if isFirstPlacement then movingMaxX else max parentBounds.maxX movingMaxX)
  let maxYGrid ← toGridMm
    (if isFirstPlacement then movingMaxY else max parentBounds.maxY movingMaxY)
  let gridX ← toGridMm candidate.point.x
  let gridY ← toGridMm candidate.point.y
  let widthGrid := maxXGrid - minXGrid
  let heightGrid := maxYGrid - minYGrid
  some {
    moving := moving
    candidate := candidate
    maximumSideGrid := max widthGrid heightGrid
    envelopeAreaGrid2 := widthGrid * heightGrid
    envelopeSpanGrid := widthGrid + heightGrid
    transformOrdinal := transformOrdinal
    gridX := gridX
    gridY := gridY
    widthGrid := widthGrid
    heightGrid := heightGrid
    sharedBoundaryLengthMm := none }

def compareScoredCandidateReferences (first second : EvaluatedCandidateReference F) :
    Ordering :=
  (compare first.maximumSideGrid second.maximumSideGrid).then <|
  (compare first.envelopeAreaGrid2 second.envelopeAreaGrid2).then <|
  (compare first.envelopeSpanGrid second.envelopeSpanGrid).then <|
  (compare first.transformOrdinal second.transformOrdinal).then <|
  (compare first.gridX second.gridX).then <|
  compare first.gridY second.gridY

def compareContactCandidateReferences (first second : EvaluatedCandidateReference F) :
    Ordering :=
  (compare (second.sharedBoundaryLengthMm.getD 0)
    (first.sharedBoundaryLengthMm.getD 0)).then <|
  compareScoredCandidateReferences first second

def capacityCandidateReferenceIdentity (reference : EvaluatedCandidateReference F) :
    String :=
  JsMath.numberToJsString reference.candidate.transform.index ++ ":" ++
    JsMath.numberToJsString (JsMath.ofInt reference.gridX : F) ++ ":" ++
    JsMath.numberToJsString (JsMath.ofInt reference.gridY : F)

inductive CandidateEvaluationOutcome (F : Type) where
  | invalid
  | fitRejected
  | scored (evaluated : EvaluatedCandidateReference F)

/-! ## §3  The request -/

structure IntrinsicCapacityV1Bounds where
  coldBeamWidth : ℕ
  localLegalPlacementFanout : ℕ
  minimumPlacementEvaluationCap : ℕ
  placementEvaluationQuotaPerDepth : ℕ
  deriving DecidableEq

def intrinsicCapacityV1Bounds : IntrinsicCapacityV1Bounds := ⟨16, 3, 50000, 4096⟩

/-- A skip-free prefix that starts a warm lane. -/
structure IntrinsicCapacityWarmPrefixSeed (heap : ℕ → IrregularPlacedPiece F) where
  sourceRole : String
  depth : ℕ
  state : CapacityState heap

/-- `RunIntrinsicCapacityColdSearchInput`, less the checkpoint, the boundary
limit and the cavity cache, which change from call to call. -/
structure ColdSearchInput (heap : ℕ → IrregularPlacedPiece F) where
  sheet : SheetSpec F
  preparedPieces : List (IrregularPreparedPiece F)
  materialAreasByPieceId : MaterialAreas
  incumbent : Option (IntrinsicCapacityEndpoint heap)
  warmPrefixSeed : Option (IntrinsicCapacityWarmPrefixSeed heap)
  schedulerDeficit : Option ℕ
  retentionMode : Option IntrinsicCapacityRetentionMode

namespace ColdSearchInput

def preparedIds (input : ColdSearchInput heap) : List PieceId :=
  input.preparedPieces.map intrinsicCapacityPreparedPieceId

def placementEvaluationCap (input : ColdSearchInput heap) : ℕ :=
  max intrinsicCapacityV1Bounds.minimumPlacementEvaluationCap
    (input.preparedPieces.length *
      intrinsicCapacityV1Bounds.placementEvaluationQuotaPerDepth)

def captureTopologyRetention (input : ColdSearchInput heap) : Bool :=
  match input.retentionMode with
  | some .cohesionFrontier => true
  | some .cohesionFrontierShadow => true
  | some .qualityFrontier => true
  | _ => false

def effectiveRetentionMode (input : ColdSearchInput heap) :
    IntrinsicCapacityRetentionMode := input.retentionMode.getD .objective

end ColdSearchInput

/-- `suffix_material_sums`: the material from each index on, and a last zero. -/
def suffixMaterialSums (areas : MaterialAreas) : List PieceId → Option (List ℤ)
  | [] => some [0]
  | pieceId :: preparedIds => do
      let sums ← suffixMaterialSums areas preparedIds
      let area ← areas pieceId
      some ((sums.headD 0 + area) :: sums)

structure IntrinsicCapacitySearchCounters where
  prunedByAttainableCount : ℕ := 0
  prunedByAttainableMaterial : ℕ := 0
  deduplicatedSuccessors : ℕ := 0
  fitRejectedCandidates : ℕ := 0
  invalidCandidates : ℕ := 0
  endpointFitRejections : ℕ := 0
  completedDepths : ℕ := 0
  depthQuotaExhaustions : ℕ := 0
  deriving DecidableEq

/-- What is fixed while one depth is expanded. -/
structure DepthContext (heap : ℕ → IrregularPlacedPiece F) where
  subsystems : SearchSubsystems heap
  input : ColdSearchInput heap
  sheetWidthGrid : ℤ
  sheetHeightGrid : ℤ
  piece : IrregularPreparedPiece F
  pieceMaterial : ℤ
  remainingPreparedPieces : List (IrregularPreparedPiece F)

/-- The accumulators of one depth. -/
structure DepthExpansion (heap : ℕ → IrregularPlacedPiece F) where
  successors : List (CapacityEntry heap)
  counters : IntrinsicCapacitySearchCounters
  consumedPlacementEvaluations : ℕ
  consumedAtDepth : ℕ
  depthQuotaExhausted : Bool

/-- Count one more invalid candidate. -/
def DepthExpansion.countInvalid (expansion : DepthExpansion heap) :
    DepthExpansion heap :=
  { expansion with counters := { expansion.counters with
      invalidCandidates := expansion.counters.invalidCandidates + 1 } }

/-- Count one more candidate that does not fit. -/
def DepthExpansion.countFitRejected (expansion : DepthExpansion heap) :
    DepthExpansion heap :=
  { expansion with counters := { expansion.counters with
      fitRejectedCandidates := expansion.counters.fitRejectedCandidates + 1 } }

/-- Count one evaluation. -/
def DepthExpansion.consume (expansion : DepthExpansion heap) : DepthExpansion heap :=
  { expansion with
    consumedPlacementEvaluations := expansion.consumedPlacementEvaluations + 1
    consumedAtDepth := expansion.consumedAtDepth + 1 }

namespace DepthContext

/-! ## §4  Successors -/

/-- `push_successor`: unless its identity is already there. -/
def pushSuccessor (context : DepthContext heap) (expansion : DepthExpansion heap)
    (successor : CapacityEntry heap) : DepthExpansion heap × Bool :=
  let identity := successor.successorIdentity context.subsystems.jsonString
  if expansion.successors.any fun other =>
      other.successorIdentity context.subsystems.jsonString = identity then
    ({ expansion with counters := { expansion.counters with
        deduplicatedSuccessors := expansion.counters.deduplicatedSuccessors + 1 } },
      false)
  else ({ expansion with successors := expansion.successors ++ [successor] }, true)

/-- The piece of this depth is left out. -/
def skipSuccessor (context : DepthContext heap) (entry : CapacityEntry heap) :
    CapacityEntry heap :=
  { entry with
    state := entry.state.withUnplacedPiece context.remainingPreparedPieces
      (intrinsicCapacityPreparedPieceId context.piece) }

/-- `make_capacity_placement`. -/
def makeCapacityPlacement (context : DepthContext heap)
    (candidate : IrregularPlacementCandidate F) : IrregularPlacement F where
  pieceId := context.piece.pieceId
  sourcePieceId := context.piece.sourceId
  placementReference := some context.piece.collisionGeometry.placementReference
  transform := ⟨candidate.point.x, candidate.point.y, candidate.transform.rotationDeg,
    candidate.transform.mirrored⟩

/-- The state with the candidate placed. -/
def placedState (context : DepthContext heap) (entry : CapacityEntry heap)
    (reference : EvaluatedCandidateReference F) : CapacityState heap :=
  entry.state.withPlacement context.remainingPreparedPieces
    (context.subsystems.alloc
      ⟨context.makeCapacityPlacement reference.candidate, reference.moving⟩)
    (intrinsicCapacityPreparedPieceId context.piece)

/-- `build_reference`: place the candidate, check its exact span, push it. -/
def buildReference (context : DepthContext heap) (entry : CapacityEntry heap)
    (reference : EvaluatedCandidateReference F) (expansion : DepthExpansion heap) :
    DepthExpansion heap × Bool :=
  let placed := context.placedState entry reference
  match intrinsicCapacityStateGridSpan placed with
  | none => (expansion.countInvalid, false)
  | some gridSpan =>
      let fits := intrinsicCapacitySpanFitsSheet gridSpan context.sheetWidthGrid
        context.sheetHeightGrid
      if !fits.1 && !fits.2 then (expansion.countFitRejected, false)
      else
        match placed.bottomLeftAnchoredCanonicalOccupiedGeometryKey with
        | none => (expansion.countInvalid, false)
        | some anchoredOccupiedKey =>
            context.pushSuccessor expansion
              ⟨placed, entry.placedDoubledMaterialAreaGrid2 + context.pieceMaterial,
                anchoredOccupiedKey, gridSpan, noCavities⟩

/-- The pure outcome of one candidate. -/
def evaluateCandidateOutcome (context : DepthContext heap) (entry : CapacityEntry heap)
    (moving : TransformedCollisionGeometry F) (transformOrdinal : ℕ)
    (candidate : IrregularPlacementCandidate F) :
    Except String (CandidateEvaluationOutcome F) :=
  match evaluateCandidate entry moving candidate transformOrdinal with
  | none => .ok .invalid
  | some evaluated =>
      let fits := intrinsicCapacitySpanFitsSheet
        ⟨evaluated.widthGrid, evaluated.heightGrid⟩ context.sheetWidthGrid
        context.sheetHeightGrid
      if !fits.1 && !fits.2 then .ok .fitRejected
      else if context.input.captureTopologyRetention then do
        let sharedBoundaryLengthMm ← context.subsystems.sharedCollisionBoundaryLengthMm
          (toOwnedPlaced entry.state.placedCollisionGeometries) moving candidate
        .ok (.scored { evaluated with
          sharedBoundaryLengthMm := some sharedBoundaryLengthMm })
      else .ok (.scored evaluated)

/-- Evaluate candidates in order, one evaluation each, until the depth quota or
the total cap is reached.  The settlement becomes `evaluation-cap` where the
quota flag is set. -/
def evaluateCandidates (context : DepthContext heap) (entry : CapacityEntry heap)
    (moving : TransformedCollisionGeometry F) (transformOrdinal : ℕ) :
    List (IrregularPlacementCandidate F) → DepthExpansion heap →
      List (EvaluatedCandidateReference F) →
      Except CapacitySearchError
        (DepthExpansion heap × List (EvaluatedCandidateReference F))
  | [], expansion, scored => .ok (expansion, scored)
  | candidate :: candidates, expansion, scored =>
      if intrinsicCapacityV1Bounds.placementEvaluationQuotaPerDepth ≤
            expansion.consumedAtDepth ∨
          context.input.placementEvaluationCap ≤
            expansion.consumedPlacementEvaluations then
        .ok ({ expansion with depthQuotaExhausted := true }, scored)
      else
        match context.evaluateCandidateOutcome entry moving transformOrdinal
            candidate with
        | .error message => .error (capacityError "capacityContactFanout" message)
        | .ok .invalid => evaluateCandidates context entry moving transformOrdinal
            candidates expansion.consume.countInvalid scored
        | .ok .fitRejected => evaluateCandidates context entry moving transformOrdinal
            candidates expansion.consume.countFitRejected scored
        | .ok (.scored evaluated) => evaluateCandidates context entry moving
            transformOrdinal candidates expansion.consume (scored ++ [evaluated])

/-- The transforms of the piece in order, until the quota is exhausted. -/
def evaluateTransforms (context : DepthContext heap) (entry : CapacityEntry heap) :
    List (IrregularTransformCandidate F × ℕ) → DepthExpansion heap →
      List (EvaluatedCandidateReference F) →
      Except CapacitySearchError
        (DepthExpansion heap × List (EvaluatedCandidateReference F))
  | [], expansion, scored => .ok (expansion, scored)
  | (transform, transformOrdinal) :: transforms, expansion, scored =>
      if expansion.depthQuotaExhausted then .ok (expansion, scored)
      else do
        let moving ← transformCollisionGeometry context.subsystems
          context.piece.collisionGeometry transform
        let candidates ← legalCandidates context.subsystems entry.state moving
        let (expansion, scored) ← context.evaluateCandidates entry moving
          transformOrdinal candidates expansion scored
        context.evaluateTransforms entry transforms expansion scored

/-- Build the most compact candidates until the fan-out is reached; also the
identities of the candidates tried. -/
def buildCompact (context : DepthContext heap) (entry : CapacityEntry heap) :
    List (EvaluatedCandidateReference F) → ℕ → List String → DepthExpansion heap →
      DepthExpansion heap × List String
  | [], _, builtCandidateKeys, expansion => (expansion, builtCandidateKeys)
  | reference :: scored, builtCount, builtCandidateKeys, expansion =>
      if intrinsicCapacityV1Bounds.localLegalPlacementFanout ≤ builtCount then
        (expansion, builtCandidateKeys)
      else
        let (expansion, added) := context.buildReference entry reference expansion
        context.buildCompact entry scored (if added then builtCount + 1 else builtCount)
          (capacityCandidateReferenceIdentity reference :: builtCandidateKeys) expansion

/-- One more successor with the longest shared boundary among those not tried. -/
def buildContact (context : DepthContext heap) (entry : CapacityEntry heap)
    (scored : List (EvaluatedCandidateReference F)) (builtCandidateKeys : List String)
    (expansion : DepthExpansion heap) : DepthExpansion heap :=
  if context.input.captureTopologyRetention then
    let contactCandidates := scored.filter fun reference =>
      decide (0 < reference.sharedBoundaryLengthMm.getD 0) &&
        !builtCandidateKeys.contains (capacityCandidateReferenceIdentity reference)
    match (contactCandidates.mergeSort (sortLe compareContactCandidateReferences)).head?
        with
    | none => expansion
    | some contactReference =>
        (context.buildReference entry contactReference expansion).1
  else expansion

/-- Every retained entry in order, until the quota is exhausted.  The entry at
which it is exhausted still builds what it has scored. -/
def expandEntries (context : DepthContext heap) :
    List (CapacityEntry heap) → DepthExpansion heap →
      Except CapacitySearchError (DepthExpansion heap)
  | [], expansion => .ok expansion
  | entry :: beam, expansion =>
      if expansion.depthQuotaExhausted then .ok expansion
      else do
        let (expansion, scored) ← context.evaluateTransforms entry
          (context.piece.transforms.mergeSort (sortLe transformCandidateOrder)).zipIdx
          expansion []
        let scored := scored.mergeSort (sortLe compareScoredCandidateReferences)
        let (expansion, builtCandidateKeys) :=
          context.buildCompact entry scored 0 [] expansion
        context.expandEntries beam
          (context.buildContact entry scored builtCandidateKeys expansion)

/-- The skip path of every retained entry, before any placement. -/
def reserveSkips (context : DepthContext heap) (beam : List (CapacityEntry heap))
    (expansion : DepthExpansion heap) : DepthExpansion heap :=
  beam.foldl (fun expansion entry =>
    (context.pushSuccessor expansion (context.skipSuccessor entry)).1) expansion

/-! ## §5  Pruning and measuring -/

/-- The strict attainable bounds against the incumbent. -/
def pruneSuccessors (incumbent : Option (IntrinsicCapacityEndpoint heap))
    (remainingCountAfterDepth : ℕ) (remainingMaterialAfterDepth : ℤ) :
    List (CapacityEntry heap) → IntrinsicCapacitySearchCounters →
      List (CapacityEntry heap) × IntrinsicCapacitySearchCounters
  | [], counters => ([], counters)
  | successor :: successors, counters =>
      match incumbent with
      | none =>
          let (surviving, counters) := pruneSuccessors none remainingCountAfterDepth
            remainingMaterialAfterDepth successors counters
          (successor :: surviving, counters)
      | some endpoint =>
          let attainableCount :=
            successor.state.placementOrder.length + remainingCountAfterDepth
          let attainableMaterial :=
            successor.placedDoubledMaterialAreaGrid2 + remainingMaterialAfterDepth
          if attainableCount < endpoint.metrics.placedCount then
            pruneSuccessors (some endpoint) remainingCountAfterDepth
              remainingMaterialAfterDepth successors { counters with
                prunedByAttainableCount := counters.prunedByAttainableCount + 1 }
          else if attainableCount = endpoint.metrics.placedCount ∧
              attainableMaterial < endpoint.metrics.placedDoubledMaterialAreaGrid2 then
            pruneSuccessors (some endpoint) remainingCountAfterDepth
              remainingMaterialAfterDepth successors { counters with
                prunedByAttainableMaterial := counters.prunedByAttainableMaterial + 1 }
          else
            let (surviving, counters) := pruneSuccessors (some endpoint)
              remainingCountAfterDepth remainingMaterialAfterDepth successors counters
            (successor :: surviving, counters)

/-- Measure the cavities of every survivor that placed something; drop those
that cannot be measured. -/
def measureSurvivors (authority : LayoutAuthority heap) :
    List (CapacityEntry heap) → IntrinsicCapacitySearchCounters →
      IntrinsicCapacityCavityCache F →
      List (CapacityEntry heap) × IntrinsicCapacitySearchCounters ×
        IntrinsicCapacityCavityCache F
  | [], counters, cache => ([], counters, cache)
  | successor :: surviving, counters, cache =>
      if successor.state.placementOrder.isEmpty then
        let (measured, counters, cache) :=
          measureSurvivors authority surviving counters cache
        (successor :: measured, counters, cache)
      else
        match measureIntrinsicCapacityCavitiesWithKey authority successor.state
            successor.anchoredOccupiedKey cache with
        | (some cavities, cache) =>
            let (measured, counters, cache) :=
              measureSurvivors authority surviving counters cache
            ({ successor with cavities := cavities } :: measured, counters, cache)
        | (none, cache) => measureSurvivors authority surviving
            { counters with invalidCandidates := counters.invalidCandidates + 1 } cache

end DepthContext

/-! ## §6  One depth -/

/-- What the search carries from depth to depth, and a checkpoint saves. -/
structure SearchProgress (heap : ℕ → IrregularPlacedPiece F) where
  beam : List (CapacityEntry heap)
  counters : IntrinsicCapacitySearchCounters
  consumedPlacementEvaluations : ℕ
  cavityCache : IntrinsicCapacityCavityCache F

structure IntrinsicAnytimeDepthBudgetLedger where
  depth : ℕ
  consumedPlacementEvaluations : ℕ
  quotaExhausted : Bool
  deriving DecidableEq

/-- What is fixed for a whole call, once its preamble has succeeded. -/
structure SearchContext (heap : ℕ → IrregularPlacedPiece F) where
  subsystems : SearchSubsystems heap
  input : ColdSearchInput heap
  sheetWidthGrid : ℤ
  sheetHeightGrid : ℤ
  suffixMaterial : List ℤ

/-- The fixed data of the depth of one piece. -/
def SearchContext.depthContext (context : SearchContext heap) (depth : ℕ)
    (piece : IrregularPreparedPiece F) (pieceMaterial : ℤ) : DepthContext heap where
  subsystems := context.subsystems
  input := context.input
  sheetWidthGrid := context.sheetWidthGrid
  sheetHeightGrid := context.sheetHeightGrid
  piece := piece
  pieceMaterial := pieceMaterial
  remainingPreparedPieces := context.input.preparedPieces.drop (depth + 1)

/-- Prune, measure and retain the successors of a depth. -/
def SearchContext.retainDepth (context : SearchContext heap) (depth : ℕ)
    (cache : IntrinsicCapacityCavityCache F) (expansion : DepthExpansion heap) :
    SearchProgress heap :=
  let counters := if expansion.depthQuotaExhausted then { expansion.counters with
      depthQuotaExhaustions := expansion.counters.depthQuotaExhaustions + 1 }
    else expansion.counters
  let (surviving, counters) := DepthContext.pruneSuccessors context.input.incumbent
    (context.input.preparedPieces.length - (depth + 1))
    (context.suffixMaterial.getD (depth + 1) 0) expansion.successors counters
  let (measured, counters, cache) := DepthContext.measureSurvivors
    context.subsystems.toLayoutAuthority surviving counters cache
  { beam := retainCapacityBeamEntries context.subsystems.jsonString
      context.subsystems.measureCanonicalLayoutTopologyExact
      intrinsicCapacityV1Bounds.coldBeamWidth context.input.effectiveRetentionMode
      measured
    counters := { counters with completedDepths := depth + 1 }
    consumedPlacementEvaluations := expansion.consumedPlacementEvaluations
    cavityCache := cache }

/-- One pass of the depth loop: the next progress, and the ledger of the depth. -/
def SearchContext.searchDepth (context : SearchContext heap) (depth : ℕ)
    (piece : IrregularPreparedPiece F) (progress : SearchProgress heap) :
    Except CapacitySearchError
      (SearchProgress heap × IntrinsicAnytimeDepthBudgetLedger) :=
  let pieceId := intrinsicCapacityPreparedPieceId piece
  match context.input.materialAreasByPieceId pieceId with
  | none => .error (capacityError "coldSearchMaterial"
      ("piece " ++ pieceId ++ " has no exact material accounting."))
  | some pieceMaterial => do
      let depthContext := context.depthContext depth piece pieceMaterial
      let expansion ← depthContext.expandEntries progress.beam
        (depthContext.reserveSkips progress.beam
          ⟨[], progress.counters, progress.consumedPlacementEvaluations, 0, false⟩)
      .ok (context.retainDepth depth progress.cavityCache expansion,
        ⟨depth, expansion.consumedAtDepth, expansion.depthQuotaExhausted⟩)

end PolygonNesting
