import PolygonNesting.Capacity.ColdSearch

/-!
# Depth-boundary checkpoints

What a paused search saves, how it is made, and the validation a resumed search
puts it through.  A checkpoint that is trusted internally passes without
validation.

The fingerprint and the integrity hash are SHA-256 hashes of canonical JSON, and
the continuation identities are JSON texts; they are fields of
`CheckpointIdentities`.  Two checkpoints that agree on every field have the same
hash.
-/

namespace PolygonNesting

variable {F : Type} [LinearOrder F] [Zero F] [One F] [Add F] [Sub F] [Neg F]
  [Mul F] [Div F] [JsMath F] {heap : ℕ → IrregularPlacedPiece F}

/-! ## §1  The checkpoint -/

inductive IntrinsicAnytimeProducerRole where
  | capacityCold
  | capacityCohesionShadow
  | capacityQualityWarmPrefix
  | capacityWarmPrefix
  | legacyComplete
  | experimentalPlaceDeferComplete
  deriving DecidableEq

def IntrinsicAnytimeProducerRole.asStr : IntrinsicAnytimeProducerRole → String
  | .capacityCold => "capacity-cold"
  | .capacityCohesionShadow => "capacity-cohesion-shadow"
  | .capacityQualityWarmPrefix => "capacity-quality-warm-prefix"
  | .capacityWarmPrefix => "capacity-warm-prefix"
  | .legacyComplete => "legacy-complete"
  | .experimentalPlaceDeferComplete => "experimental-place-defer-complete"

inductive IntrinsicAnytimeArchiveCohort where
  | complete
  | partialCohort
  | experimentalComplete
  deriving DecidableEq

inductive IntrinsicAnytimeEligibility where
  | completeEligible
  | subsetOnly
  deriving DecidableEq

structure IntrinsicAnytimeFitMask where
  q0 : Bool
  q90 : Bool
  deriving DecidableEq

structure IntrinsicAnytimeDecisionState (heap : ℕ → IrregularPlacedPiece F) where
  state : CapacityState heap
  continuationMetadataIdentity : String
  eligibility : IntrinsicAnytimeEligibility
  placedPreparedIds : List PieceId
  pendingPreparedIds : List PieceId
  deferredPreparedIds : List PieceId
  permanentlySkippedPreparedIds : List PieceId
  pendingOrder : List PieceId
  cursor : ℕ
  pass : ℕ
  deferralCounts : List (String × ℕ)
  placedDoubledMaterialAreaGrid2 : ℤ
  cavities : IntrinsicCapacityCavityMetrics F
  anchoredOccupiedKey : String
  gridSpan : IntrinsicCapacityGridSpan
  fitMask : IntrinsicAnytimeFitMask

structure IntrinsicAnytimeBudgetPerCohort where
  complete : ℕ
  partialCohort : ℕ
  experimentalComplete : ℕ
  deriving DecidableEq

structure IntrinsicAnytimeBudgetLedgers where
  totalPlacementEvaluationCap : ℕ
  totalConsumedPlacementEvaluations : ℕ
  perDepth : List IntrinsicAnytimeDepthBudgetLedger
  perCohort : IntrinsicAnytimeBudgetPerCohort
  deriving DecidableEq

structure IntrinsicAnytimeNoSkipFrontierState where
  present : Bool
  firstLossDepth : Option ℕ
  deriving DecidableEq

structure IntrinsicAnytimeIncumbentBinding where
  canonicalGeometryHash : String
  placedCount : ℕ
  placedDoubledMaterialAreaGrid2 : ℤ
  origin : IntrinsicCapacityEndpointOrigin
  selectedRotationDeg : IrregularQuarterTurnDegrees
  deriving DecidableEq

structure IntrinsicAnytimeCheckpoint (heap : ℕ → IrregularPlacedPiece F) where
  trustedInternal : Bool
  version : String
  requestFingerprint : String
  producerRole : IntrinsicAnytimeProducerRole
  archiveCohort : IntrinsicAnytimeArchiveCohort
  searchBounds : IntrinsicCapacityV1Bounds
  incumbentBinding : Option IntrinsicAnytimeIncumbentBinding
  frontier : List (IntrinsicAnytimeDecisionState heap)
  nextDepth : ℕ
  depthBoundaryResumePosition : ℕ
  budgetLedgers : IntrinsicAnytimeBudgetLedgers
  schedulerDeficit : ℕ
  noSkipFrontier : IntrinsicAnytimeNoSkipFrontierState
  counters : IntrinsicCapacitySearchCounters
  integrityHash : String

def intrinsicAnytimeCheckpointVersion : String := "intrinsic-anytime-checkpoint-v3"

/-- The hashes and JSON texts that bind a checkpoint. -/
structure CheckpointIdentities (heap : ℕ → IrregularPlacedPiece F) where
  requestFingerprint : ColdSearchInput heap → String
  integrityHash : IntrinsicAnytimeCheckpoint heap → String
  continuationMetadataIdentity : CapacityState heap → String
  indexContinuationIdentity : PlacedCollisionSpatialIndex heap → String

def intrinsicCapacityIncumbentBinding
    (incumbent : Option (IntrinsicCapacityEndpoint heap)) :
    Option IntrinsicAnytimeIncumbentBinding :=
  incumbent.map fun endpoint =>
    ⟨endpoint.canonicalGeometryHash, endpoint.metrics.placedCount,
      endpoint.metrics.placedDoubledMaterialAreaGrid2, endpoint.origin,
      endpoint.selectedRotationDeg⟩

/-! ## §2  Making one -/

inductive IntrinsicCapacitySettlement where
  | exhausted
  | evaluationCap
  | paused
  deriving DecidableEq

/-- What the depth loop accounts for beside its progress. -/
structure SearchAccounts where
  settlement : IntrinsicCapacitySettlement
  perDepthBudgetLedgers : List IntrinsicAnytimeDepthBudgetLedger
  noSkipFrontier : IntrinsicAnytimeNoSkipFrontierState
  deriving DecidableEq

def eligibilityOf (skippedIds : List PieceId) : IntrinsicAnytimeEligibility :=
  if skippedIds.isEmpty then .completeEligible else .subsetOnly

/-- The saved form of one beam entry. -/
def makeDecisionState (identities : CheckpointIdentities heap)
    (context : SearchContext heap) (nextDepth : ℕ) (entry : CapacityEntry heap) :
    IntrinsicAnytimeDecisionState heap :=
  let pendingPreparedIds := context.input.preparedIds.drop nextDepth
  let fitMask := intrinsicCapacitySpanFitsSheet entry.gridSpan context.sheetWidthGrid
    context.sheetHeightGrid
  { state := entry.state
    continuationMetadataIdentity := identities.continuationMetadataIdentity entry.state
    eligibility := eligibilityOf entry.state.unplacedPieceIds
    placedPreparedIds := entry.state.placementOrder
    pendingPreparedIds := pendingPreparedIds
    deferredPreparedIds := []
    permanentlySkippedPreparedIds := entry.state.unplacedPieceIds
    pendingOrder := pendingPreparedIds
    cursor := nextDepth
    pass := 0
    deferralCounts := []
    placedDoubledMaterialAreaGrid2 := entry.placedDoubledMaterialAreaGrid2
    cavities := entry.cavities
    anchoredOccupiedKey := entry.anchoredOccupiedKey
    gridSpan := entry.gridSpan
    fitMask := ⟨fitMask.1, fitMask.2⟩ }

/-- `intrinsic_capacity_checkpoint_integrity_hash`: of everything but the hash
itself and the trust flag. -/
def intrinsicCapacityCheckpointIntegrityHash (identities : CheckpointIdentities heap)
    (checkpoint : IntrinsicAnytimeCheckpoint heap) : String :=
  identities.integrityHash { checkpoint with
    trustedInternal := false
    integrityHash := "" }

/-- `make_intrinsic_capacity_checkpoint`. -/
def makeIntrinsicCapacityCheckpoint (identities : CheckpointIdentities heap)
    (context : SearchContext heap) (trustedInternal : Bool)
    (requestFingerprint : String) (producerRole : IntrinsicAnytimeProducerRole)
    (nextDepth : ℕ) (progress : SearchProgress heap) (accounts : SearchAccounts) :
    IntrinsicAnytimeCheckpoint heap :=
  let checkpoint : IntrinsicAnytimeCheckpoint heap :=
    { trustedInternal := trustedInternal
      version := intrinsicAnytimeCheckpointVersion
      requestFingerprint := requestFingerprint
      producerRole := producerRole
      archiveCohort := .partialCohort
      searchBounds := intrinsicCapacityV1Bounds
      incumbentBinding := intrinsicCapacityIncumbentBinding context.input.incumbent
      frontier := progress.beam.map (makeDecisionState identities context nextDepth)
      nextDepth := nextDepth
      depthBoundaryResumePosition := nextDepth
      budgetLedgers :=
        { totalPlacementEvaluationCap := context.input.placementEvaluationCap
          totalConsumedPlacementEvaluations := progress.consumedPlacementEvaluations
          perDepth := accounts.perDepthBudgetLedgers
          perCohort := ⟨0, progress.consumedPlacementEvaluations, 0⟩ }
      schedulerDeficit := context.input.schedulerDeficit.getD 0
      noSkipFrontier := accounts.noSkipFrontier
      counters := progress.counters
      integrityHash := "" }
  if trustedInternal then checkpoint
  else { checkpoint with
    integrityHash := intrinsicCapacityCheckpointIntegrityHash identities checkpoint }

/-! ## §3  Validating one -/

/-- A count that an `f64` holds exactly. -/
def isSafeCount (count : ℕ) : Bool := decide (count ≤ 9007199254740991)

def allCountersNonNegativeSafeInteger (counters : IntrinsicCapacitySearchCounters) :
    Bool :=
  [counters.prunedByAttainableCount, counters.prunedByAttainableMaterial,
    counters.deduplicatedSuccessors, counters.fitRejectedCandidates,
    counters.invalidCandidates, counters.endpointFitRejections,
    counters.completedDepths, counters.depthQuotaExhaustions].all isSafeCount

/-- A ledger out of place, over its quota, or exhausted short of it. -/
def badLedger (ledger : IntrinsicAnytimeDepthBudgetLedger) (index : ℕ) : Bool :=
  let quota := intrinsicCapacityV1Bounds.placementEvaluationQuotaPerDepth
  decide (ledger.depth ≠ index) || !isSafeCount ledger.consumedPlacementEvaluations ||
    decide (quota < ledger.consumedPlacementEvaluations) ||
    (ledger.quotaExhausted && decide (ledger.consumedPlacementEvaluations ≠ quota))

/-- The loss depth of a no-skip frontier is missing, superfluous or out of range. -/
def badNoSkipFrontier (frontier : IntrinsicAnytimeNoSkipFrontierState)
    (nextDepth : ℕ) : Bool :=
  if frontier.present then frontier.firstLossDepth.isSome
  else
    match frontier.firstLossDepth with
    | none => true
    | some firstLossDepth => !isSafeCount firstLossDepth ||
        decide (firstLossDepth < 1) || decide (nextDepth < firstLossDepth)

/-- The lists are a disjoint partition of the request. -/
def isRequestPartition (partition preparedIds : List PieceId) : Bool :=
  decide (partition.dedup.length = partition.length) &&
    decide (partition.mergeSort keyLe = preparedIds.mergeSort keyLe)

/-- The checks of one frontier entry, in order; the cavity cache is that of the
validation. -/
def validateDecisionState (identities : CheckpointIdentities heap)
    (context : SearchContext heap) (nextDepth : ℕ)
    (entry : IntrinsicAnytimeDecisionState heap)
    (cache : IntrinsicCapacityCavityCache F) :
    Option String × IntrinsicCapacityCavityCache F :=
  let state := entry.state
  let expectedPendingIds := context.input.preparedIds.drop nextDepth
  let statePendingIds :=
    state.remainingPreparedPieces.map intrinsicCapacityPreparedPieceId
  let recomputedState := IrregularBeamState.fromInput
    { remainingPreparedPieces := state.remainingPreparedPieces
      placedCollisionGeometries := state.placedCollisionGeometries
      unplacedPieceIds := some state.unplacedPieceIds
      unplacedSourcePieceIds := none
      placementOrder := state.placementOrder
      placedCollisionIndex := none }
  if entry.continuationMetadataIdentity ≠
      identities.continuationMetadataIdentity state then
    (some "checkpoint continuation metadata identity does not match its beam state.",
      cache)
  else if recomputedState.canonicalEntryKeys ≠ state.canonicalEntryKeys then
    (some "checkpoint canonical-entry cache is inconsistent.", cache)
  else if identities.indexContinuationIdentity recomputedState.placedCollisionIndex ≠
        identities.indexContinuationIdentity state.placedCollisionIndex ∨
      !state.placedCollisionIndex.matches state.placedCollisionGeometries then
    (some "checkpoint spatial-index cache is inconsistent.", cache)
  else if entry.placedPreparedIds ≠ state.placementOrder ∨
      entry.pendingPreparedIds ≠ expectedPendingIds ∨
      entry.pendingOrder ≠ expectedPendingIds ∨
      statePendingIds ≠ expectedPendingIds ∨
      entry.permanentlySkippedPreparedIds ≠ state.unplacedPieceIds ∨
      entry.deferredPreparedIds ≠ [] ∨ entry.cursor ≠ nextDepth ∨ entry.pass ≠ 0 ∨
      entry.deferralCounts ≠ [] then
    (some ("checkpoint future-decision state does not match its beam geometry " ++
      "payload."), cache)
  else if !isRequestPartition (entry.placedPreparedIds ++ entry.pendingPreparedIds ++
      entry.deferredPreparedIds ++ entry.permanentlySkippedPreparedIds)
      context.input.preparedIds then
    (some ("checkpoint placed, pending, deferred, and skipped IDs are not a disjoint " ++
      "request partition."), cache)
  else if entry.eligibility ≠ eligibilityOf state.unplacedPieceIds then
    (some "checkpoint complete eligibility disagrees with permanent-skip accounting.",
      cache)
  else if sumMaterialAreas state.placementOrder context.input.materialAreasByPieceId ≠
      some entry.placedDoubledMaterialAreaGrid2 then
    (some "checkpoint placed-material accounting is invalid.", cache)
  else if intrinsicCapacityStateGridSpan state ≠ some entry.gridSpan then
    (some "checkpoint exact occupied span does not match its geometry payload.", cache)
  else if intrinsicCapacitySpanFitsSheet entry.gridSpan context.sheetWidthGrid
      context.sheetHeightGrid ≠ (entry.fitMask.q0, entry.fitMask.q90) then
    (some "checkpoint q0/q90 fit mask does not match its exact occupied span.", cache)
  else if state.bottomLeftAnchoredCanonicalOccupiedGeometryKey.getD
      state.canonicalOccupiedGeometryKey ≠ entry.anchoredOccupiedKey then
    (some ("checkpoint anchored occupied identity does not match its geometry " ++
      "payload."), cache)
  else
    match measureIntrinsicCapacityCavitiesWithKey context.subsystems.toLayoutAuthority
        state entry.anchoredOccupiedKey cache with
    | (none, cache) => (some ("checkpoint cavity objective does not match its exact " ++
        "geometry payload."), cache)
    | (some cavities, cache) =>
        if cavities.count ≠ entry.cavities.count ∨
            cavities.totalAreaMm2 ≠ entry.cavities.totalAreaMm2 then
          (some ("checkpoint cavity objective does not match its exact geometry " ++
            "payload."), cache)
        else (none, cache)

/-- The frontier entries in order; the first message wins. -/
def validateFrontier (identities : CheckpointIdentities heap)
    (context : SearchContext heap) (nextDepth : ℕ) :
    List (IntrinsicAnytimeDecisionState heap) → IntrinsicCapacityCavityCache F →
      Option String
  | [], _ => none
  | entry :: frontier, cache =>
      match validateDecisionState identities context nextDepth entry cache with
      | (some message, _) => some message
      | (none, cache) => validateFrontier identities context nextDepth frontier cache

/-- `validate_intrinsic_capacity_checkpoint`: the first failed check. -/
def validateIntrinsicCapacityCheckpoint (identities : CheckpointIdentities heap)
    (context : SearchContext heap) (requestFingerprint : String)
    (producerRole : IntrinsicAnytimeProducerRole)
    (checkpoint : IntrinsicAnytimeCheckpoint heap) : Option String :=
  let ledgers := checkpoint.budgetLedgers
  let consumedFromDepths :=
    (ledgers.perDepth.map fun ledger => ledger.consumedPlacementEvaluations).sum
  let hasNoSkipState := checkpoint.frontier.any fun entry =>
    decide (entry.eligibility = .completeEligible)
  if checkpoint.version ≠ intrinsicAnytimeCheckpointVersion then
    some ("unsupported checkpoint version " ++ checkpoint.version ++ ".")
  else if checkpoint.trustedInternal then none
  else if checkpoint.integrityHash ≠
      intrinsicCapacityCheckpointIntegrityHash identities checkpoint then
    some "checkpoint integrity hash does not match its retained frontier."
  else if checkpoint.requestFingerprint ≠ requestFingerprint then
    some ("checkpoint request/prepared-order fingerprint does not match the current " ++
      "request.")
  else if checkpoint.producerRole ≠ producerRole ∨ checkpoint.archiveCohort ≠ .partialCohort then
    some ("capacity search requires a " ++ producerRole.asStr ++
      " partial-cohort checkpoint.")
  else if checkpoint.searchBounds ≠ intrinsicCapacityV1Bounds then
    some "checkpoint search bounds do not match the current capacity implementation."
  else if checkpoint.incumbentBinding ≠
      intrinsicCapacityIncumbentBinding context.input.incumbent then
    some "checkpoint pruning incumbent does not match the current resume request."
  else if !isSafeCount checkpoint.nextDepth || checkpoint.nextDepth == 0 ||
      decide (context.input.preparedIds.length ≤ checkpoint.nextDepth) ||
      decide (checkpoint.depthBoundaryResumePosition ≠ checkpoint.nextDepth) then
    some "checkpoint is not positioned at a valid completed depth boundary."
  else if checkpoint.frontier.isEmpty then
    some "checkpoint frontier must not be empty."
  else if ledgers.totalPlacementEvaluationCap ≠ context.input.placementEvaluationCap ∨
      ledgers.totalPlacementEvaluationCap < ledgers.totalConsumedPlacementEvaluations then
    some "checkpoint total budget ledger is invalid for the current request."
  else if ledgers.perDepth.length ≠ checkpoint.nextDepth ∨
      ledgers.perDepth.zipIdx.any fun (ledger, index) => badLedger ledger index then
    some "checkpoint per-depth budget ledger is not contiguous or exceeds its quota."
  else if consumedFromDepths ≠ ledgers.totalConsumedPlacementEvaluations ∨
      ledgers.perCohort.partialCohort ≠ consumedFromDepths ∨
      ledgers.perCohort.complete ≠ 0 ∨ ledgers.perCohort.experimentalComplete ≠ 0 then
    some "checkpoint total, per-depth, and per-cohort budget ledgers disagree."
  else if !isSafeCount checkpoint.schedulerDeficit ||
      decide (checkpoint.schedulerDeficit ≠ context.input.schedulerDeficit.getD 0) ||
      decide (checkpoint.counters.completedDepths ≠ checkpoint.nextDepth) ||
      decide (checkpoint.counters.depthQuotaExhaustions ≠
        ledgers.perDepth.countP fun ledger => ledger.quotaExhausted) ||
      !allCountersNonNegativeSafeInteger checkpoint.counters then
    some ("checkpoint scheduler or settlement state is invalid for a cold " ++
      "depth-boundary resume.")
  else if badNoSkipFrontier checkpoint.noSkipFrontier checkpoint.nextDepth then
    some "checkpoint no-skip-frontier loss depth is invalid for its resume boundary."
  else
    match validateFrontier identities context checkpoint.nextDepth checkpoint.frontier ∅
        with
    | some message => some message
    | none =>
        if decide (checkpoint.noSkipFrontier.present ≠ hasNoSkipState) ||
            (hasNoSkipState && checkpoint.noSkipFrontier.firstLossDepth.isSome) then
          some "checkpoint no-skip-frontier state disagrees with the retained frontier."
        else none

end PolygonNesting
