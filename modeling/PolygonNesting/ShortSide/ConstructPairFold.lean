import PolygonNesting.ShortSide.PairFoldOutcome
import PolygonNesting.Validation.Placement

/-!
# The directional constructions of one request

A pair fold, a shelf and two contact strips are built and finalized; where none of them is
accepted, strips of the pieces in other orders follow until one is.  The outcome is the
best of them.  A limit of the clock or the memory ends the request with a failed outcome.

Clock, memory, geometry cache and contact strips belong to the world of the request: any
state with its answers.
-/

namespace PolygonNesting.PairFold

open ContactStrip (ConstructStripInput IntrinsicShortSideContactStripOrderPolicy
  IntrinsicShortSideContactStripOutcome IntrinsicShortSideContactStripSelectionPolicy
  IntrinsicShortSideContactStripTrace)

variable {F : Type} [LinearOrder F] [Zero F] [One F] [Add F] [Sub F] [Neg F]
  [Mul F] [Div F] [JsMath F] {heap : ℕ → IrregularPlacedPiece F} {σ : Type}

/-! ## §1  The runtime -/

structure ObserverRuntime (F : Type) where
  startedAt : F
  startingRssBytes : F
  peakRssBytes : F
  transformEvaluations : ℕ
  expectedPairCount : ℕ
  evaluatedPairCount : ℕ
  envelopeAreaCostVetoObserved : Bool
  envelopeAreaCostVetoes : List (IntrinsicShortSideEnvelopeAreaCostVeto F)
  maximumRuntimeMs : F
  maximumRssDeltaBytes : F
  maximumTraceBytes : F

/-- The limits a contact strip gets. -/
structure StripRuntimeControl (F : Type) where
  maximumRuntimeMs : F
  maximumRssDeltaBytes : F

/-- A strip samples the memory as well: it takes the peak and returns the new one. -/
structure ObserverWorld (σ : Type) (heap : ℕ → IrregularPlacedPiece F) where
  now : σ → F × σ
  currentRssBytes : σ → F × σ
  resolveTransformedCollisionGeometry : CollisionGeometry F → IrregularTransformCandidate F →
    σ → Except String (TransformedCollisionGeometry F) × σ
  constructIntrinsicShortSideContactStrip : ConstructStripInput F → StripRuntimeControl F →
    F → σ → (IntrinsicShortSideContactStripOutcome heap × F) × σ

abbrev ObserverCall (F σ : Type) := StateT (ObserverRuntime F × σ) Option

/-- A call of the world. -/
def ask {α : Type} (call : σ → α × σ) : ObserverCall F σ α := fun (runtime, world) =>
  let (answer, later) := call world
  some (answer, runtime, later)

def readRuntime : ObserverCall F σ (ObserverRuntime F) := fun (runtime, world) =>
  some (runtime, runtime, world)

def modifyRuntime (f : ObserverRuntime F → ObserverRuntime F) : ObserverCall F σ Unit :=
  fun (runtime, world) => some ((), f runtime, world)

section Limits

variable (world : ObserverWorld σ heap)

def sampleRss : ObserverCall F σ F := do
  let current ← ask world.currentRssBytes
  modifyRuntime fun runtime => { runtime with
    peakRssBytes := max runtime.peakRssBytes current }
  let runtime ← readRuntime
  pure (max 0 (runtime.peakRssBytes - runtime.startingRssBytes))

def boundedStatus : ObserverCall F σ (Option BoundedStatus) := do
  let now ← ask world.now
  let runtime ← readRuntime
  if runtime.maximumRuntimeMs < now - runtime.startedAt then pure (some .deadline)
  else
    let rss ← sampleRss world
    if runtime.maximumRssDeltaBytes < rss then pure (some .memoryCap) else pure none

end Limits

/-! ## §2  Failed outcomes -/

def observerVersion : String := "intrinsic-short-side-terminal-observer-v6"

/-- The places where a request or a construction is given up. -/
structure Failure where
  status : IntrinsicShortSidePairFoldStatus
  reason : String
  placedCount : ℕ
  selectedBottomPieceId : Option PieceId
  selectedUpperPieceId : Option PieceId

section Outcomes

variable (measures : TerminalMeasures F) (world : ObserverWorld σ heap)
  (input : IntrinsicShortSidePairFoldInput F)

def failedOutcome (failure : Failure) :
    ObserverCall F σ (IntrinsicShortSidePairFoldOutcome heap) := do
  let now ← ask world.now
  let peakRssDeltaBytes ← sampleRss world
  let runtime ← readRuntime
  let axes := intrinsicShortSideAxes input.sheet
  pure {
    trace := withMeasuredTrace measures {
      version := observerVersion
      status := failure.status
      outputInfluence := .none
      executionModel := "single-process-sequential"
      requestedShortAxisMm := axes.shortAxisMm
      requestedLongAxisMm := axes.longAxisMm
      prescribedRotationDeg := some axes.normalizedToPhysicalRotationDeg
      productionShortAxisSpanMm := input.productionShortAxisSpanMm
      productionMaximumSideMm := input.productionMaximumSideMm
      productionEnvelopeAreaMm2 := input.productionEnvelopeAreaMm2
      productionShortAxisSpanGrid := input.productionShortAxisSpanGrid
      productionMaximumSideGrid := input.productionMaximumSideGrid
      productionEnvelopeAreaGrid2 := input.productionEnvelopeAreaGrid2
      transformEvaluations := runtime.transformEvaluations
      expectedPairCount := runtime.expectedPairCount
      evaluatedPairCount := runtime.evaluatedPairCount
      constructionKind := none
      rowCount := 0
      selectedBottomPieceId := failure.selectedBottomPieceId
      selectedUpperPieceId := failure.selectedUpperPieceId
      placedCount := failure.placedCount
      usedShortAxisSpanMm := none
      usedLongAxisDepthMm := none
      envelopeAreaMm2 := none
      usedShortAxisSpanGrid := none
      usedLongAxisDepthGrid := none
      envelopeAreaGrid2 := none
      collisionMaterialDoubledAreaGrid2 := none
      canonicalGeometryHash := none
      admission := none
      interlocking := none
      envelopeAreaCostVetoObserved := runtime.envelopeAreaCostVetoObserved
      envelopeAreaCostVetoes := runtime.envelopeAreaCostVetoes
      contactStrip := none
      contactStripLanes := []
      contactStripPromotion := none
      runtimeMs := max 0 (now - runtime.startedAt)
      peakRssDeltaBytes := peakRssDeltaBytes
      serializedTraceBytes := 0
      failureReason := some failure.reason }
    placedCollisionGeometries := none }

/-! ## §3  Finalization -/

/-- A construction with its description. -/
structure FinalizePlacedLayoutInput (heap : ℕ → IrregularPlacedPiece F) where
  placed : List (PlacedArc heap)
  constructionKind : IntrinsicShortSideConstructionKind
  rowCount : ℕ
  selectedBottomPieceId : Option PieceId
  selectedUpperPieceId : Option PieceId

def FinalizePlacedLayoutInput.failure (params : FinalizePlacedLayoutInput heap)
    (status : IntrinsicShortSidePairFoldStatus) (reason : String) : Failure where
  status := status
  reason := reason
  placedCount := params.placed.length
  selectedBottomPieceId := params.selectedBottomPieceId
  selectedUpperPieceId := params.selectedUpperPieceId

/-- Both id lists are without repetition and hold the same ids. -/
def exactTargetIdentity (expectedPieceIds placedPieceIds : List PieceId) : Bool :=
  expectedPieceIds.dedup.length == expectedPieceIds.length &&
    placedPieceIds.dedup.length == placedPieceIds.length &&
    placedPieceIds.length == expectedPieceIds.length &&
    expectedPieceIds.all fun id => decide (id ∈ placedPieceIds)

/-- The measured terminal metrics. -/
structure TerminalMetrics (F : Type) where
  dimensions : PhysicalDimensions F
  topology : TerminalTopology F
  sharedBoundaryLengthMm : F
  materialDoubledAreaGrid2 : ℤ
  identity : String

def measureTerminal (placed : List (IrregularPlacedPiece F)) :
    Option (TerminalMetrics F) := do
  let dimensions ← physicalDimensions placed input.sheet
  let topology ← measures.measureCanonicalLayoutTopologyExact placed
  let sharedBoundaryLengthMm ← measures.measureCanonicalLayoutContacts placed
  let materialDoubledAreaGrid2 ← collisionMaterialArea placed
  let identity ← canonicalCollisionLayoutIdentity placed
  some { dimensions, topology, sharedBoundaryLengthMm, materialDoubledAreaGrid2, identity }

/-- The production metrics can be compared. -/
def hasProductionMetrics : Bool :=
  isSafeInteger input.productionShortAxisSpanGrid &&
    isSafeInteger input.productionMaximumSideGrid &&
    decide (0 < input.productionShortAxisSpanGrid) &&
    decide (0 < input.productionEnvelopeAreaGrid2)

def terminalEnvelopeAreaGrid2 (metrics : TerminalMetrics F) : ℤ :=
  metrics.dimensions.shortAxisGrid * metrics.dimensions.longAxisGrid

def terminalTargetIdentity (placed : List (IrregularPlacedPiece F)) : Bool :=
  exactTargetIdentity (input.preparedPieces.map preparedPieceId)
    (placed.map fun entry => entry.placement.preparedId)

/-- The evidence of the admission, with its verdict. -/
def terminalAdmission (placed : List (IrregularPlacedPiece F)) (metrics : TerminalMetrics F) :
    IntrinsicShortSidePairFoldAdmission F :=
  let envelopeAreaGrid2 := terminalEnvelopeAreaGrid2 metrics
  let dimensions := metrics.dimensions
  let projection : ShortAxisProjectionMetrics F :=
    shortAxisProjectionMetrics placed input.sheet
  { exactLegal := true
    allPiecesPlaced := terminalTargetIdentity input placed
    fillRatio := JsMath.ofInt dimensions.shortAxisGrid /
      JsMath.ofInt dimensions.requestedShortAxisGrid
    depthWithinProductionMaximumSide :=
      decide (JsMath.ofInt dimensions.longAxisGrid ≤ input.productionMaximumSideGrid)
    projectionCoverageRatio := projection.coverageRatio
    projectionComponentCount := projection.componentCount
    enclosedCavityCount := some metrics.topology.enclosedCavityCount
    collisionEnvelopeDensity :=
      if envelopeAreaGrid2 ≤ 0 then 0
      else JsMath.ofInt metrics.materialDoubledAreaGrid2 /
        (JsNumber.ofNat 2 * JsMath.ofInt envelopeAreaGrid2)
    shortAxisSpanGainFactor :=
      JsMath.ofInt dimensions.shortAxisGrid / input.productionShortAxisSpanGrid
    envelopeAreaCostFactor :=
      JsMath.ofInt envelopeAreaGrid2 / JsMath.ofInt input.productionEnvelopeAreaGrid2
    directionallyEfficient :=
      decide (f64ToBigint input.productionShortAxisSpanGrid * envelopeAreaGrid2 ≤
        dimensions.shortAxisGrid * input.productionEnvelopeAreaGrid2)
    envelopeAreaCostWithinProductionBound :=
      intrinsicShortSideEnvelopeAreaCostWithinProductionBound envelopeAreaGrid2
        input.productionEnvelopeAreaGrid2
    accepted := terminalTargetIdentity input placed }

/-- All admission gates but the cost of the envelope. -/
def admittedBesidesAreaCost (placed : List (IrregularPlacedPiece F))
    (metrics : TerminalMetrics F) : Bool :=
  let dimensions := metrics.dimensions
  let projection : ShortAxisProjectionMetrics F :=
    shortAxisProjectionMetrics placed input.sheet
  let admission := terminalAdmission input placed metrics
  terminalTargetIdentity input placed &&
    decide (4 * dimensions.requestedShortAxisGrid ≤ 5 * dimensions.shortAxisGrid) &&
    admission.depthWithinProductionMaximumSide &&
    decide (projection.spanGrid ≤ 0 ∨ 99 * projection.spanGrid ≤ 100 * projection.coveredGrid) &&
    projection.componentCount == 1 &&
    metrics.topology.enclosedCavityCount == 0 &&
    decide (terminalEnvelopeAreaGrid2 metrics ≤ metrics.materialDoubledAreaGrid2) &&
    admission.directionallyEfficient

def terminalInterlocking (metrics : TerminalMetrics F) :
    IntrinsicShortSideInterlockingMetrics F where
  largestOccupiedHullGapRatio := metrics.topology.largestOccupiedHullGapRatio
  largestOccupiedHullGapDoubledAreaGrid2 := metrics.topology.exactHullGapDoubledAreaGrid2
  occupiedHullDoubledAreaGrid2 := metrics.topology.exactHullDoubledAreaGrid2
  isolatedPieceCount := metrics.topology.isolatedPieceCount
  positiveContactComponentCount := metrics.topology.positiveContactComponentCount
  largestPositiveContactComponentSize := metrics.topology.largestPositiveContactComponentSize
  sharedBoundaryLengthMm := metrics.sharedBoundaryLengthMm

/-- A veto is noted where the cost alone speaks against an admission. -/
def noteVeto (params : FinalizePlacedLayoutInput heap)
    (placed : List (IrregularPlacedPiece F)) (metrics : TerminalMetrics F) :
    ObserverCall F σ Unit :=
  let admission := terminalAdmission input placed metrics
  if !admission.envelopeAreaCostWithinProductionBound &&
      admittedBesidesAreaCost input placed metrics then
    modifyRuntime fun runtime => { runtime with
      envelopeAreaCostVetoObserved := true
      envelopeAreaCostVetoes := runtime.envelopeAreaCostVetoes ++
        [{ constructionKind := params.constructionKind, admission := admission }] }
  else pure ()

def finalizeOutcome (params : FinalizePlacedLayoutInput heap)
    (state : List (PlacedArc heap)) (prescribedRotationDeg : ShortSideRotationDeg) :
    ObserverCall F σ (IntrinsicShortSidePairFoldOutcome heap) := do
  let placed := state.map PlacedArc.piece
  match measureTerminal measures input placed with
  | none => failedOutcome measures world input { params.failure .failedProtectedFallback
        "exact terminal construction metrics could not be materialized." with
      placedCount := state.length }
  | some metrics =>
      if !hasProductionMetrics input then
        failedOutcome measures world input { params.failure .failedProtectedFallback
            "production comparison metrics must fit the canonical grid." with
          placedCount := state.length }
      else do
        let dimensions := metrics.dimensions
        let accepted := terminalTargetIdentity input placed
        noteVeto input params placed metrics
        let now ← ask world.now
        let peakRssDeltaBytes ← sampleRss world
        let runtime ← readRuntime
        pure {
          trace := withMeasuredTrace measures {
            version := observerVersion
            status := if accepted then .accepted else .rejectedAdmission
            outputInfluence := .none
            executionModel := "single-process-sequential"
            requestedShortAxisMm := dimensions.requestedShortAxisMm
            requestedLongAxisMm := dimensions.requestedLongAxisMm
            prescribedRotationDeg := some prescribedRotationDeg
            productionShortAxisSpanMm := input.productionShortAxisSpanMm
            productionMaximumSideMm := input.productionMaximumSideMm
            productionEnvelopeAreaMm2 := input.productionEnvelopeAreaMm2
            productionShortAxisSpanGrid := input.productionShortAxisSpanGrid
            productionMaximumSideGrid := input.productionMaximumSideGrid
            productionEnvelopeAreaGrid2 := input.productionEnvelopeAreaGrid2
            transformEvaluations := runtime.transformEvaluations
            expectedPairCount := runtime.expectedPairCount
            evaluatedPairCount := runtime.evaluatedPairCount
            constructionKind := some params.constructionKind
            rowCount := params.rowCount
            selectedBottomPieceId := params.selectedBottomPieceId
            selectedUpperPieceId := params.selectedUpperPieceId
            placedCount := placed.length
            usedShortAxisSpanMm := some dimensions.shortAxisMm
            usedLongAxisDepthMm := some dimensions.longAxisMm
            envelopeAreaMm2 := some (JsMath.ofInt (terminalEnvelopeAreaGrid2 metrics) /
              JsNumber.ofNat 1000000)
            usedShortAxisSpanGrid := some dimensions.shortAxisGrid
            usedLongAxisDepthGrid := some dimensions.longAxisGrid
            envelopeAreaGrid2 := some (terminalEnvelopeAreaGrid2 metrics)
            collisionMaterialDoubledAreaGrid2 := some metrics.materialDoubledAreaGrid2
            canonicalGeometryHash := some (measures.sha256Hex metrics.identity)
            admission := some (terminalAdmission input placed metrics)
            interlocking := some (terminalInterlocking metrics)
            envelopeAreaCostVetoObserved := runtime.envelopeAreaCostVetoObserved
            envelopeAreaCostVetoes := runtime.envelopeAreaCostVetoes
            contactStrip := none
            contactStripLanes := []
            contactStripPromotion := none
            runtimeMs := max 0 (now - runtime.startedAt)
            peakRssDeltaBytes := peakRssDeltaBytes
            serializedTraceBytes := 0
            failureReason := if accepted then none else some
              "the exact terminal construction failed one or more admission gates." }
          placedCollisionGeometries := if accepted then some state else none }

variable (alloc : IrregularPlacedPiece F → PlacedArc heap)

def ShortSideRotationDeg.asQuarterTurn : ShortSideRotationDeg → IrregularQuarterTurnDegrees
  | .zero => .zero
  | .ninety => .ninety

/-- The layout turned into the sheet, if it is legal there. -/
def legalPhysicalState (placed : List (PlacedArc heap)) : Option (List (PlacedArc heap)) := do
  let normalizedState : IrregularBeamState heap (IrregularPreparedPiece F) :=
    .fromInput {
      remainingPreparedPieces := []
      placedCollisionGeometries := placed
      unplacedPieceIds := none
      unplacedSourcePieceIds := none
      placementOrder := input.preparedPieces.map preparedPieceId
      placedCollisionIndex := none }
  let physicalState ← normalizedState.withQuarterTurnBottomLeft alloc
    (intrinsicShortSideAxes input.sheet).normalizedToPhysicalRotationDeg.asQuarterTurn
  let physical := physicalState.placedCollisionGeometries
  if assertCanonicalGridLegalLayout measures.intersection input.sheet
      (physical.map PlacedArc.piece) then some physical
  else none

def finalizePlacedLayout (params : FinalizePlacedLayoutInput heap) :
    ObserverCall F σ (IntrinsicShortSidePairFoldOutcome heap) := do
  match ← boundedStatus world with
  | some bounded => failedOutcome measures world input (params.failure bounded.toStatus
      (bounded.asStr ++ " reached before exact finalization."))
  | none =>
      match legalPhysicalState measures input alloc params.placed with
      | none => failedOutcome measures world input (params.failure .failedProtectedFallback
          "the prescribed physical terminal orientation failed exact legality.")
      | some physical => do
          let outcome ← finalizeOutcome measures world input params physical
            (intrinsicShortSideAxes input.sheet).normalizedToPhysicalRotationDeg
          match ← boundedStatus world with
          | some bounded => failedOutcome measures world input (params.failure bounded.toStatus
              (bounded.asStr ++ " reached after exact finalization."))
          | none => do
              let runtime ← readRuntime
              if runtime.maximumTraceBytes <
                  JsNumber.ofNat (selectedOutputTraceSize measures outcome.trace) then
                failedOutcome measures world input (params.failure .traceCap
                  "stabilized terminal short-side trace exceeds its byte cap.")
              else pure outcome

/-! ## §4  Leaving a request -/

/-- How a request is left before its end. -/
inductive ObserverExit (heap : ℕ → IrregularPlacedPiece F) where
  | failed (outcome : IntrinsicShortSidePairFoldOutcome heap)
  | error (error : IrregularGeometryInputError)

abbrev ObserverRun (heap : ℕ → IrregularPlacedPiece F) (σ : Type) :=
  ExceptT (ObserverExit heap) (ObserverCall F σ)

def requestFailure (status : IntrinsicShortSidePairFoldStatus) (reason : String) : Failure where
  status := status
  reason := reason
  placedCount := 0
  selectedBottomPieceId := none
  selectedUpperPieceId := none

def leave {α : Type} (status : IntrinsicShortSidePairFoldStatus) (reason : String) :
    ObserverRun heap σ α := do
  let outcome ← ExceptT.lift
    (failedOutcome measures world input (requestFailure status reason))
  throw (.failed outcome)

/-- A status ends the request; the rest of the reason may name the counts. -/
def leaveIfBounded (reached : ObserverRuntime F → String) : ObserverRun heap σ Unit := do
  match ← ExceptT.lift (boundedStatus world) with
  | none => pure ()
  | some bounded => do
      let runtime ← ExceptT.lift readRuntime
      leave measures world input bounded.toStatus (bounded.asStr ++ reached runtime)

/-! ## §5  Transforms and pairs -/

def transformCollisionGeometry (geometry : CollisionGeometry F)
    (transform : IrregularTransformCandidate F) :
    ObserverRun heap σ (TransformedCollisionGeometry F) := do
  match ← ExceptT.lift (ask (world.resolveTransformedCollisionGeometry geometry transform)) with
  | .ok transformed => pure transformed
  | .error message => throw (.error ⟨"transformCollisionGeometry", message⟩)

/-- The best transforms of a piece so far, for the fold and for the shelf. -/
abbrev SelectedTransforms (F : Type) :=
  Option (SelectedTransform F) × Option (SelectedTransform F)

def evaluateTransform (piece : IrregularPreparedPiece F) (selected : SelectedTransforms F)
    (transform : IrregularTransformCandidate F) : ObserverRun heap σ (SelectedTransforms F) := do
  ExceptT.lift (modifyRuntime fun runtime => { runtime with
    transformEvaluations := runtime.transformEvaluations + 1 })
  let geometry ← transformCollisionGeometry world piece.collisionGeometry transform
  leaveIfBounded measures world input fun runtime =>
    " reached after " ++ toString runtime.transformEvaluations ++ " transform evaluations."
  match selectedTransform piece geometry with
  | none => pure selected
  | some candidate => pure (keepTransform compareSelectedTransforms selected.1 candidate,
      keepTransform compareShelfTransforms selected.2 candidate)

def selectTransforms (piece : IrregularPreparedPiece F) :
    ObserverRun heap σ (SelectedTransform F × SelectedTransform F) := do
  match ← piece.transforms.foldlM (evaluateTransform measures world input piece) (none, none) with
  | (some selected, some shelfSelected) => pure (selected, shelfSelected)
  | _ =>
      leave measures world input .failedProtectedFallback
        ("piece " ++ preparedPieceId piece ++ " has no valid pair-fold transform.")

def evaluatePair (selectedTransforms : List (SelectedTransform F)) (requested : RequestedAxes)
    (selected : Option SelectedPair)
    (pair : (SelectedTransform F × ℕ) × (SelectedTransform F × ℕ)) :
    ObserverRun heap σ (Option SelectedPair) := do
  let reached (runtime : ObserverRuntime F) : String :=
    " reached after " ++ toString runtime.evaluatedPairCount ++ " pair evaluations."
  leaveIfBounded measures world input reached
  ExceptT.lift (modifyRuntime fun runtime => { runtime with
    evaluatedPairCount := runtime.evaluatedPairCount + 1 })
  leaveIfBounded measures world input reached
  pure (keepPair selectedTransforms requested selected
    (selectedPair selectedTransforms pair.1 pair.2))

def searchPair (selectedTransforms : List (SelectedTransform F)) (requested : RequestedAxes) :
    ObserverRun heap σ (Option SelectedPair) :=
  (earlierPairs selectedTransforms.zipIdx).foldlM
    (evaluatePair measures world input selectedTransforms requested) none

/-- The pair fold of the best pair, if one fits. -/
def constructPair (selectedTransforms : List (SelectedTransform F)) (requested : RequestedAxes) :
    ObserverRun heap σ (Option (IntrinsicShortSidePairFoldOutcome heap)) := do
  match ← searchPair measures world input selectedTransforms requested with
  | none => pure none
  | some pair =>
      match constructPairLayout alloc selectedTransforms pair requested.shortAxisGrid with
      | none =>
          leave measures world input .failedProtectedFallback
            "selected pair accounting exceeded the requested short axis."
      | some placed => do
          let outcome ← ExceptT.lift (finalizePlacedLayout measures world input alloc {
            placed := placed
            constructionKind := .pairFold
            rowCount := 1
            selectedBottomPieceId := some (pieceIdAt selectedTransforms pair.bottomIndex)
            selectedUpperPieceId := some (pieceIdAt selectedTransforms pair.upperIndex) })
          pure (some outcome)

def constructShelf (shelfTransforms : List (SelectedTransform F)) (requested : RequestedAxes) :
    ObserverCall F σ (Option (IntrinsicShortSidePairFoldOutcome heap)) :=
  match constructNextFitShelf alloc shelfTransforms requested with
  | none => pure none
  | some shelf => do
      let outcome ← finalizePlacedLayout measures world input alloc {
        placed := shelf.placed
        constructionKind := .multiRowShelf
        rowCount := shelf.rowCount
        selectedBottomPieceId := none
        selectedUpperPieceId := none }
      pure (some outcome)

/-! ## §6  Contact strips -/

/-- What is left of the limits, within those of a strip. -/
def stripRuntimeControl : ObserverCall F σ (StripRuntimeControl F) := do
  let now ← ask world.now
  let rss ← sampleRss world
  let runtime ← readRuntime
  let outerRuntimeRemainingMs := max 0 (runtime.maximumRuntimeMs - (now - runtime.startedAt))
  let outerRssRemainingBytes := max 0 (runtime.maximumRssDeltaBytes - rss)
  pure {
    maximumRuntimeMs := min (JsNumber.ofNat 20000) outerRuntimeRemainingMs
    maximumRssDeltaBytes := min (JsNumber.ofNat (256 * 1048576)) outerRssRemainingBytes }

/-- The label of the sheet, which names its sides, is cut short. -/
def stripSheet : SheetSpec F where
  width := (intrinsicShortSideAxes input.sheet).shortAxisMm
  height := (intrinsicShortSideAxes input.sheet).longAxisMm
  label := "short-side-strip"

def constructContactStrip (selectionPolicy : IntrinsicShortSideContactStripSelectionPolicy)
    (orderPolicy : IntrinsicShortSideContactStripOrderPolicy)
    (preparedPieces : List (IrregularPreparedPiece F))
    (maximumCandidateEvaluations maximumBacktracks : Option ℕ) :
    ObserverCall F σ (IntrinsicShortSideContactStripOutcome heap) := do
  let control ← stripRuntimeControl world
  let runtime ← readRuntime
  let (strip, peakRssBytes) ← ask (world.constructIntrinsicShortSideContactStrip {
    stripSheet := stripSheet input
    preparedPieces, selectionPolicy, orderPolicy
    maximumCandidateEvaluations, maximumBacktracks } control runtime.peakRssBytes)
  modifyRuntime fun runtime => { runtime with
    peakRssBytes := peakRssBytes }
  pure strip

def finalizeStrip (strip : IntrinsicShortSideContactStripOutcome heap) :
    ObserverCall F σ (Option (IntrinsicShortSidePairFoldOutcome heap)) :=
  match strip.placedCollisionGeometries with
  | none => pure none
  | some placed => do
      let outcome ← finalizePlacedLayout measures world input alloc {
        placed := placed
        constructionKind := .contactStrip
        rowCount := 0
        selectedBottomPieceId := none
        selectedUpperPieceId := none }
      pure (some outcome)

def orderPolicyAsStr : IntrinsicShortSideContactStripOrderPolicy → String
  | .prepared => "prepared"
  | .reverse => "reverse"
  | .pieceIdAscending => "piece-id-ascending"

/-- `str::cmp`: the order of the code points. -/
def compareStr (first second : String) : Ordering :=
  compareOfLessAndEq (first.toList.map Char.toNat) (second.toList.map Char.toNat)

def sortByPieceId (pieces : List (IrregularPreparedPiece F)) : List (IrregularPreparedPiece F) :=
  pieces.mergeSort fun first second =>
    compareStr (preparedPieceId first) (preparedPieceId second) != .gt

/-- The best strip and all strips so far; the outcomes of the continuations are kept for
the record. -/
structure StripLanes (heap : ℕ → IrregularPlacedPiece F) where
  stripOutcome : Option (IntrinsicShortSidePairFoldOutcome heap)
  selectedStripTrace : IntrinsicShortSideContactStripTrace F
  contactStripLanes : List (IntrinsicShortSideContactStripTrace F)
  continuedOutcomes : List (IntrinsicShortSidePairFoldOutcome heap)

/-- Strips in other orders, until one is accepted. -/
def continueStrips : List (IntrinsicShortSideContactStripOrderPolicy ×
    List (IrregularPreparedPiece F)) → StripLanes heap → ObserverRun heap σ (StripLanes heap)
  | [], lanes => pure lanes
  | (orderPolicy, pieces) :: rest, lanes => do
      let strip ← ExceptT.lift
        (constructContactStrip world input .depthFirst orderPolicy pieces none none)
      let lanes := { lanes with
        contactStripLanes := lanes.contactStripLanes ++ [strip.trace] }
      leaveIfBounded measures world input fun _ =>
        " reached during " ++ orderPolicyAsStr orderPolicy ++ " contact-strip continuation."
      match ← ExceptT.lift (finalizeStrip measures world input alloc strip) with
      | none => continueStrips rest lanes
      | some continued =>
          let choice := selectDirectionalIncumbentChoice lanes.stripOutcome (some continued)
          let lanes := { lanes with
            stripOutcome := selectDirectionalIncumbent lanes.stripOutcome (some continued)
            selectedStripTrace :=
              if choice ≠ some .first then strip.trace else lanes.selectedStripTrace
            continuedOutcomes := lanes.continuedOutcomes ++ [continued] }
          if choice.isSome then pure lanes else continueStrips rest lanes

/-! ## §7  The request -/

structure DirectionalConstructions (heap : ℕ → IrregularPlacedPiece F) extends
    StripLanes heap where
  pairOutcome : Option (IntrinsicShortSidePairFoldOutcome heap)
  shelfOutcome : Option (IntrinsicShortSidePairFoldOutcome heap)
  incumbent : Option (IntrinsicShortSidePairFoldOutcome heap)
  depthStripOutcome : Option (IntrinsicShortSidePairFoldOutcome heap)
  contactStripOutcome : Option (IntrinsicShortSidePairFoldOutcome heap)

def requestedAxes : Option RequestedAxes := do
  let shortAxisGrid ← toGridMm (intrinsicShortSideAxes input.sheet).shortAxisMm
  let longAxisGrid ← toGridMm (intrinsicShortSideAxes input.sheet).longAxisMm
  some { shortAxisGrid, longAxisGrid }

/-- All constructions of the request. -/
def constructDirectional : ObserverRun heap σ (DirectionalConstructions heap) := do
  match requestedAxes input with
  | none =>
      leave measures world input .failedProtectedFallback
        "requested sheet axes must fit the canonical grid."
  | some requested => do
      let transforms ← input.preparedPieces.mapM (selectTransforms measures world input)
      let selectedTransforms := transforms.map Prod.fst
      let shelfTransforms := transforms.map Prod.snd
      ExceptT.lift (modifyRuntime fun runtime => { runtime with
        expectedPairCount := selectedTransforms.length * (selectedTransforms.length - 1) / 2 })
      let pairOutcome ← constructPair measures world input alloc selectedTransforms requested
      let shelfOutcome ← ExceptT.lift
        (constructShelf measures world input alloc shelfTransforms requested)
      let incumbent := selectDirectionalIncumbent pairOutcome shelfOutcome
      let depthStrip ← ExceptT.lift
        (constructContactStrip world input .depthFirst .prepared input.preparedPieces none none)
      leaveIfBounded measures world input fun _ =>
        " reached during depth-first contact-strip construction."
      let depthStripOutcome ← ExceptT.lift
        (finalizeStrip measures world input alloc depthStrip)
      let contactStrip ← ExceptT.lift (constructContactStrip world input .contactFirst
        .prepared input.preparedPieces (some 2000) (some 4))
      leaveIfBounded measures world input fun _ =>
        " reached during contact-first strip construction."
      let contactStripOutcome ← ExceptT.lift
        (finalizeStrip measures world input alloc contactStrip)
      let stripChoice := selectDirectionalIncumbentChoice depthStripOutcome contactStripOutcome
      let lanes : StripLanes heap := {
        stripOutcome := selectDirectionalIncumbent depthStripOutcome contactStripOutcome
        -- also where neither strip succeeded
        selectedStripTrace :=
          if stripChoice = some .first then depthStrip.trace else contactStrip.trace
        contactStripLanes := [depthStrip.trace, contactStrip.trace]
        continuedOutcomes := [] }
      let lanes ← if incumbent.isNone && lanes.stripOutcome.isNone &&
          decide (input.preparedPieces.length ≤ 8) then
        continueStrips measures world input alloc
          [(.reverse, input.preparedPieces.reverse),
            (.pieceIdAscending, sortByPieceId input.preparedPieces)] lanes
      else pure lanes
      pure { toStripLanes := lanes
             pairOutcome, shelfOutcome, incumbent, depthStripOutcome, contactStripOutcome }

/-- The outcome of a request: the better of incumbent and strip, with the traces of the
strips. -/
def composeOutcome (constructions : DirectionalConstructions heap) :
    ObserverCall F σ (IntrinsicShortSidePairFoldOutcome heap) := do
  let promotion := evaluateIntrinsicShortSideContactStripPromotion constructions.incumbent
    constructions.stripOutcome constructions.selectedStripTrace
  let selected ← match selectDirectionalIncumbent constructions.incumbent
      constructions.stripOutcome with
    | some selected => pure selected
    | none => failedOutcome measures world input (requestFailure .noFittingPair
        "no exact directional construction fit both requested sheet axes.")
  let peakRssDeltaBytes ← sampleRss world
  let now ← ask world.now
  let runtime ← readRuntime
  let trace := withMeasuredTrace measures { selected.trace with
    envelopeAreaCostVetoObserved := runtime.envelopeAreaCostVetoObserved
    envelopeAreaCostVetoes := runtime.envelopeAreaCostVetoes
    contactStrip := some constructions.selectedStripTrace
    contactStripLanes := constructions.contactStripLanes
    contactStripPromotion := some promotion
    peakRssDeltaBytes := peakRssDeltaBytes
    runtimeMs := max 0 (now - runtime.startedAt)
    serializedTraceBytes := 0 }
  if runtime.maximumTraceBytes < JsNumber.ofNat (selectedOutputTraceSize measures trace) then
    failedOutcome measures world input (requestFailure .traceCap
      "composite terminal short-side trace exceeds its byte cap.")
  else pure {
    trace := trace
    placedCollisionGeometries := selected.placedCollisionGeometries }

def constructPairFold : ObserverRun heap σ (IntrinsicShortSidePairFoldOutcome heap) := do
  let constructions ← constructDirectional measures world input alloc
  ExceptT.lift (composeOutcome measures world input constructions)

/-- Early returns are outcomes, and an error becomes one. -/
def observeOutcome : ObserverCall F σ (IntrinsicShortSidePairFoldOutcome heap) := do
  match ← (constructPairFold measures world input alloc).run with
  | .ok outcome => pure outcome
  | .error (.failed outcome) => pure outcome
  | .error (.error error) =>
      failedOutcome measures world input
        (requestFailure .failedProtectedFallback error.message)

/-- Limits that are not given have defaults. -/
structure IntrinsicShortSidePairFoldRuntimeControl (F : Type) where
  maximumRuntimeMs : Option F
  maximumRssDeltaBytes : Option F
  maximumTraceBytes : Option F

/-- The memory is read before the clock. -/
def startRuntime (control : IntrinsicShortSidePairFoldRuntimeControl F) (start : σ) :
    ObserverRuntime F × σ :=
  let (startingRssBytes, afterRss) := world.currentRssBytes start
  let (startedAt, afterNow) := world.now afterRss
  ({
    startedAt, startingRssBytes
    peakRssBytes := startingRssBytes
    transformEvaluations := 0
    expectedPairCount := 0
    evaluatedPairCount := 0
    envelopeAreaCostVetoObserved := false
    envelopeAreaCostVetoes := []
    maximumRuntimeMs := control.maximumRuntimeMs.getD (JsNumber.ofNat 30000)
    maximumRssDeltaBytes := control.maximumRssDeltaBytes.getD (JsNumber.ofNat (512 * 1048576))
    maximumTraceBytes := control.maximumTraceBytes.getD (JsNumber.ofNat 1048576) }, afterNow)

def observeIntrinsicShortSidePairFold (control : IntrinsicShortSidePairFoldRuntimeControl F)
    (start : σ) : Option (IntrinsicShortSidePairFoldOutcome heap) :=
  ((observeOutcome measures world input alloc).run (startRuntime world control start)).map
    Prod.fst

end Outcomes

end PolygonNesting.PairFold
