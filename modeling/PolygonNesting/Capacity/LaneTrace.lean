import PolygonNesting.Capacity.ColdSearchRun

/-!
# The trace of the lane coordinator

The quanta that the coordinator gives to its lanes, in the order it gives them, the
summary of every lane, and the validator that checks the finished trace against the
summaries.

Depths and evaluation counts are naturals, so the fractions and negative numbers that
the source also turns down cannot be written.
-/

namespace PolygonNesting

variable {F : Type} {heap : ℕ → IrregularPlacedPiece F}

/-! ## §1  Objectives -/

/-- The projection of an endpoint that traces carry. -/
structure IntrinsicCapacityObjective (F : Type) where
  placedCount : ℕ
  placedDoubledMaterialAreaGrid2 : ℤ
  enclosedCavityCount : ℕ
  totalEnclosedCavityAreaMm2 : F
  totalEnclosedCavityDoubledAreaGrid2 : ℤ
  envelopeMaximumSideMm : F
  envelopeAreaMm2 : F
  envelopeSpanMm : F
  envelopeMaximumSideGrid : ℤ
  envelopeAreaGrid2 : ℤ
  envelopeSpanGrid : ℤ
  canonicalGeometryHash : String
  origin : IntrinsicCapacityEndpointOrigin
  prefixDepth : Option ℕ
  sourceRole : Option String
  deriving DecidableEq

def intrinsicCapacityObjective (endpoint : IntrinsicCapacityEndpoint heap) :
    IntrinsicCapacityObjective F where
  placedCount := endpoint.metrics.placedCount
  placedDoubledMaterialAreaGrid2 := endpoint.metrics.placedDoubledMaterialAreaGrid2
  enclosedCavityCount := endpoint.metrics.enclosedCavityCount
  totalEnclosedCavityAreaMm2 := endpoint.metrics.totalEnclosedCavityAreaMm2
  totalEnclosedCavityDoubledAreaGrid2 := endpoint.metrics.totalEnclosedCavityDoubledAreaGrid2
  envelopeMaximumSideMm := endpoint.metrics.envelopeMaximumSideMm
  envelopeAreaMm2 := endpoint.metrics.envelopeAreaMm2
  envelopeSpanMm := endpoint.metrics.envelopeSpanMm
  envelopeMaximumSideGrid := endpoint.metrics.envelopeMaximumSideGrid
  envelopeAreaGrid2 := endpoint.metrics.envelopeAreaGrid2
  envelopeSpanGrid := endpoint.metrics.envelopeSpanGrid
  canonicalGeometryHash := endpoint.canonicalGeometryHash
  origin := endpoint.origin
  prefixDepth := endpoint.prefixDepth
  sourceRole := endpoint.sourceRole

/-! ## §2  Lanes and quanta -/

inductive WarmPrefixLaneStatus where
  | settled
  | checkpointedCensored
  deriving DecidableEq

structure IntrinsicCapacityWarmPrefixLaneTrace (F : Type) where
  sourceRole : String
  prefixDepth : ℕ
  reusedPlacedCount : ℕ
  status : WarmPrefixLaneStatus
  selectedForContinuation : Bool
  checkpointRetained : Bool
  consumedPlacementEvaluations : ℕ
  completedDepths : ℕ
  endpoint : Option (IntrinsicCapacityObjective F)

inductive QualityWarmPrefixStatus where
  | skippedBelowMinimumPieceCount
  | skippedNoFittingCanonicalPrefix
  | settled
  | evaluationCap
  | checkpointedCensored
  deriving DecidableEq

inductive QualityWarmPrefixOutputInfluence where
  | none
  | strictCountImprovement
  deriving DecidableEq

def intrinsicCapacityQualityWarmPrefixTraceVersion : String :=
  "intrinsic-capacity-quality-warm-prefix-v1"

structure IntrinsicCapacityQualityWarmPrefixTrace (F : Type) where
  version : String
  producerRole : String
  policy : String
  status : QualityWarmPrefixStatus
  outputInfluence : QualityWarmPrefixOutputInfluence
  sourceRole : Option String
  prefixDepth : Option ℕ
  reusedPlacedCount : ℕ
  requestPieceCount : ℕ
  minimumPieceCount : ℕ
  placementEvaluationCap : ℕ
  consumedPlacementEvaluations : ℕ
  completedDepths : ℕ
  checkpointRetained : Bool
  endpoint : Option (IntrinsicCapacityObjective F)

inductive LaneCoordinatorQuantumProducerRole where
  | capacityCold
  | capacityQualityWarmPrefix
  | capacityWarmPrefix
  deriving DecidableEq

inductive LaneCoordinatorQuantumPhase where
  | initial
  | resume
  | censor
  deriving DecidableEq

inductive LaneCoordinatorQuantumOutcome where
  | checkpointed
  | settled
  | censored
  deriving DecidableEq

structure IntrinsicCapacityLaneCoordinatorQuantum where
  ordinal : ℕ
  producerRole : LaneCoordinatorQuantumProducerRole
  sourceRole : Option String
  prefixDepth : Option ℕ
  phase : LaneCoordinatorQuantumPhase
  fromDepth : ℕ
  toDepth : ℕ
  placementEvaluationDelta : ℕ
  outcome : LaneCoordinatorQuantumOutcome
  deriving DecidableEq

inductive LaneCoordinatorContinuedProducer where
  | capacityCold
  | capacityWarmPrefix (sourceRole : String) (prefixDepth : ℕ)
  | capacityQualityWarmPrefix (sourceRole : String) (prefixDepth : ℕ)
  deriving DecidableEq

def intrinsicCapacityLaneCoordinatorTraceVersion : String :=
  "intrinsic-capacity-lane-coordinator-v3"

structure IntrinsicCapacityLaneCoordinatorTrace where
  version : String
  aggregatePlacementEvaluationCap : ℕ
  aggregateConsumedPlacementEvaluations : ℕ
  warmPilotDepthBoundaries : ℕ
  continuedProducers : List LaneCoordinatorContinuedProducer
  retainedCheckpointCount : ℕ
  censoredLaneCount : ℕ
  quanta : List IntrinsicCapacityLaneCoordinatorQuantum

/-- `push_lane_coordinator_quantum`. -/
def pushLaneCoordinatorQuantum (quanta : List IntrinsicCapacityLaneCoordinatorQuantum)
    (producerRole : LaneCoordinatorQuantumProducerRole) (sourceRole : Option String)
    (prefixDepth : Option ℕ) (phase : LaneCoordinatorQuantumPhase)
    (fromDepth toDepth placementEvaluationDelta : ℕ)
    (outcome : LaneCoordinatorQuantumOutcome) :
    List IntrinsicCapacityLaneCoordinatorQuantum :=
  quanta ++ [⟨quanta.length, producerRole, sourceRole, prefixDepth, phase, fromDepth, toDepth,
    placementEvaluationDelta, outcome⟩]

/-! ## §3  The validator -/

def capacityLaneIdentity (sourceRole : String) (prefixDepth : ℕ) : String :=
  sourceRole ++ "@" ++ toString prefixDepth

def capacityLaneQuantumIdentity (quantum : IntrinsicCapacityLaneCoordinatorQuantum) : String :=
  capacityLaneIdentity (quantum.sourceRole.getD "unknown") (quantum.prefixDepth.getD 0)

/-- The quanta of one producer role. -/
def quantaOf (producerRole : LaneCoordinatorQuantumProducerRole)
    (quanta : List IntrinsicCapacityLaneCoordinatorQuantum) :
    List IntrinsicCapacityLaneCoordinatorQuantum :=
  quanta.filter fun quantum => decide (quantum.producerRole = producerRole)

/-- The quanta of one warm lane. -/
def warmLaneQuanta (laneIdentity : String)
    (quanta : List IntrinsicCapacityLaneCoordinatorQuantum) :
    List IntrinsicCapacityLaneCoordinatorQuantum :=
  quanta.filter fun quantum => decide (quantum.producerRole = .capacityWarmPrefix) &&
    decide (capacityLaneQuantumIdentity quantum = laneIdentity)

def evaluationSum (quanta : List IntrinsicCapacityLaneCoordinatorQuantum) : ℕ :=
  (quanta.map fun quantum => quantum.placementEvaluationDelta).sum

/-- Every quantum starts where the one before it ended. -/
def contiguousDepths : List IntrinsicCapacityLaneCoordinatorQuantum → Bool
  | previous :: quantum :: quanta =>
      decide (quantum.fromDepth = previous.toDepth) && contiguousDepths (quantum :: quanta)
  | _ => true

/-- `lane_quanta_chronology_valid`. -/
def laneQuantaChronologyValid (laneQuanta : List IntrinsicCapacityLaneCoordinatorQuantum)
    (consumedPlacementEvaluations completedDepths : ℕ) : Bool :=
  match laneQuanta.head?, laneQuanta.getLast? with
  | some first, some last =>
      decide (first.phase = .initial) && contiguousDepths laneQuanta &&
        decide (evaluationSum laneQuanta = consumedPlacementEvaluations) &&
        decide (last.toDepth = completedDepths)
  | _, _ => false

/-- The identities of the warm lanes that a resume charged. -/
def warmResumeIdentities (quanta : List IntrinsicCapacityLaneCoordinatorQuantum) :
    List String :=
  ((quanta.filter fun quantum => decide (quantum.producerRole = .capacityWarmPrefix) &&
      decide (quantum.phase = .resume) &&
      decide (0 < quantum.placementEvaluationDelta)).map capacityLaneQuantumIdentity).dedup

/-- The checks of one warm lane. -/
def warmLaneValid (quanta : List IntrinsicCapacityLaneCoordinatorQuantum)
    (lane : IntrinsicCapacityWarmPrefixLaneTrace F) : Bool :=
  let laneQuanta :=
    warmLaneQuanta (capacityLaneIdentity lane.sourceRole lane.prefixDepth) quanta
  laneQuantaChronologyValid laneQuanta lane.consumedPlacementEvaluations
      lane.completedDepths &&
    match laneQuanta.getLast? with
    | none => false
    | some last => decide (last.outcome =
        if lane.status = .checkpointedCensored then .censored else .settled)

/-- The checks of the quality lane. -/
def qualityLaneValid (qualityQuanta : List IntrinsicCapacityLaneCoordinatorQuantum)
    (qualityLane : Option (IntrinsicCapacityQualityWarmPrefixTrace F)) : Bool :=
  match qualityLane with
  | none => qualityQuanta.isEmpty
  | some qualityLane =>
      if qualityLane.status = .skippedBelowMinimumPieceCount ∨
          qualityLane.status = .skippedNoFittingCanonicalPrefix then
        qualityQuanta.isEmpty && decide (qualityLane.consumedPlacementEvaluations = 0)
      else
        match qualityQuanta.head?, qualityQuanta.getLast? with
        | some first, some last =>
            decide (first.phase = .initial) &&
              (qualityQuanta.all fun quantum =>
                decide (quantum.sourceRole = qualityLane.sourceRole) &&
                  decide (quantum.prefixDepth = qualityLane.prefixDepth)) &&
              contiguousDepths qualityQuanta &&
              decide (evaluationSum qualityQuanta =
                qualityLane.consumedPlacementEvaluations) &&
              decide (last.toDepth = qualityLane.completedDepths) &&
              decide (last.outcome =
                if qualityLane.status = .checkpointedCensored then .censored else .settled)
        | _, _ => false

/-- `intrinsic_capacity_lane_coordinator_trace_valid`. -/
def intrinsicCapacityLaneCoordinatorTraceValid (trace : IntrinsicCapacityLaneCoordinatorTrace)
    (warmLanes : List (IntrinsicCapacityWarmPrefixLaneTrace F))
    (qualityLane : Option (IntrinsicCapacityQualityWarmPrefixTrace F)) : Bool :=
  let coldQuanta := quantaOf .capacityCold trace.quanta
  decide (trace.aggregateConsumedPlacementEvaluations ≤
      trace.aggregatePlacementEvaluationCap) &&
    (trace.quanta.zipIdx.all fun (quantum, index) =>
      decide (quantum.ordinal = index) && decide (quantum.fromDepth ≤ quantum.toDepth)) &&
    (match coldQuanta with
      | [] => false
      | first :: _ => decide (first.phase = .initial)) &&
    (coldQuanta.all fun quantum => quantum.sourceRole.isNone && quantum.prefixDepth.isNone) &&
    decide (evaluationSum trace.quanta = trace.aggregateConsumedPlacementEvaluations) &&
    decide ((warmResumeIdentities trace.quanta).length ≤ 1) &&
    (warmLanes.all (warmLaneValid trace.quanta)) &&
    qualityLaneValid (quantaOf .capacityQualityWarmPrefix trace.quanta) qualityLane

/-! ## §4  The lane to resume -/

inductive ProtectedCapacityLaneRole where
  | capacityCold
  | capacityQualityWarmPrefix
  | capacityWarmPrefix
  deriving DecidableEq

/-- What the choice of the warm lane reads of a lane. -/
structure WarmSettlementLaneView where
  role : ProtectedCapacityLaneRole
  isPausedWithCheckpoint : Bool
  hasFirstEndpoint : Bool
  sourceRole : Option String
  prefixDepth : Option ℕ

/-- Among lanes of one depth the source roles go in this order. -/
def sourcePriority : List String :=
  ["canonical-grid", "open-pocket-first", "legacy-absolute-envelope"]

/-- `select_protected_warm_settlement_lane`: the deepest of the paused warm lanes with an
endpoint, by its index. -/
def selectProtectedWarmSettlementLane (lanes : List WarmSettlementLaneView) : Option ℕ :=
  let candidates := lanes.zipIdx.filter fun (lane, _) =>
    decide (lane.role = .capacityWarmPrefix) && lane.isPausedWithCheckpoint &&
      lane.hasFirstEndpoint
  let maximumPrefixDepth := (candidates.map fun (lane, _) => lane.prefixDepth.getD 0).foldl max 0
  let deepestCandidates := candidates.filter fun (lane, _) =>
    decide (lane.prefixDepth.getD 0 = maximumPrefixDepth)
  let prioritized := sourcePriority.findSome? fun sourceRole =>
    deepestCandidates.find? fun (lane, _) => decide (lane.sourceRole = some sourceRole)
  (prioritized.or deepestCandidates.head?).map fun candidate => candidate.2

end PolygonNesting
