import PolygonNesting.Capacity.LaneTrace

/-!
# The protected lane coordinator

Every lane gets one bounded sample: the cold lane, one warm pilot for each fitting prefix
descriptor, and the quality lane.  The cold lane then runs to its end, the best paused
warm lane is resumed depth by depth while the base budget reserves one full depth, and
so is the quality lane.

The two resume loops take fuel; they return `none` only when it runs out.  The clocks
and the control that may abort a call are left out, as in the search.
-/

namespace PolygonNesting

variable {F : Type} [LinearOrder F] [Zero F] [One F] [Add F] [Sub F] [Neg F]
  [Mul F] [Div F] [JsMath F] {heap : ℕ → IrregularPlacedPiece F}

/-! ## §1  The request -/

inductive IntrinsicSharedArchiveDirectRole where
  | canonicalGrid
  | legacyAbsoluteEnvelope
  | openPocketFirst
  deriving DecidableEq

def IntrinsicSharedArchiveDirectRole.asStr : IntrinsicSharedArchiveDirectRole → String
  | .canonicalGrid => "canonical-grid"
  | .legacyAbsoluteEnvelope => "legacy-absolute-envelope"
  | .openPocketFirst => "open-pocket-first"

/-- A prefix that a direct constructor committed. -/
structure IntrinsicCapacityPrefixDescriptor (heap : ℕ → IrregularPlacedPiece F) where
  role : IntrinsicSharedArchiveDirectRole
  depth : ℕ
  state : CapacityState heap
  placedPreparedIds : List PieceId
  remainingPreparedIds : List PieceId

/-- A result and the cavity cache that a trusted checkpoint of it shares. -/
structure CachedSearchResult (heap : ℕ → IrregularPlacedPiece F) where
  result : IntrinsicCapacitySearchResult heap
  cavityCache : IntrinsicCapacityCavityCache F

structure LaneCoordinatorInput (heap : ℕ → IrregularPlacedPiece F) where
  sheet : SheetSpec F
  preparedPieces : List (IrregularPreparedPiece F)
  materialAreasByPieceId : MaterialAreas
  fittingDescriptors : List (IntrinsicCapacityPrefixDescriptor heap)
  scheduledColdStart : Option (CachedSearchResult heap)
  retentionMode : Option IntrinsicCapacityRetentionMode

/-- `base_placement_evaluation_cap`. -/
def basePlacementEvaluationCap (preparedPieceCount minimumPlacementEvaluationCap
    placementEvaluationQuotaPerDepth : ℕ) : ℕ :=
  max minimumPlacementEvaluationCap (preparedPieceCount * placementEvaluationQuotaPerDepth)

def intrinsicAnytimeSchedulerColdQuantumDepths : ℕ := 4

def intrinsicCapacityWarmPilotDepthBoundaries : ℕ := 1

def intrinsicCapacityQualityMinimumPieceCount : ℕ := intrinsicCapacityV1Bounds.coldBeamWidth * 2

/-- The depths of a cold sample. -/
def coldQuantumDepths (pieceCount : ℕ) : ℕ :=
  min intrinsicAnytimeSchedulerColdQuantumDepths (max 1 pieceCount)

namespace LaneCoordinatorInput

def baseCap (input : LaneCoordinatorInput heap) : ℕ :=
  basePlacementEvaluationCap input.preparedPieces.length
    intrinsicCapacityV1Bounds.minimumPlacementEvaluationCap
    intrinsicCapacityV1Bounds.placementEvaluationQuotaPerDepth

/-- The search input of a lane. -/
def laneInput (input : LaneCoordinatorInput heap)
    (warmPrefixSeed : Option (IntrinsicCapacityWarmPrefixSeed heap))
    (schedulerDeficit : Option ℕ) (retentionMode : Option IntrinsicCapacityRetentionMode) :
    ColdSearchInput heap where
  sheet := input.sheet
  preparedPieces := input.preparedPieces
  materialAreasByPieceId := input.materialAreasByPieceId
  incumbent := none
  warmPrefixSeed := warmPrefixSeed
  schedulerDeficit := schedulerDeficit
  retentionMode := retentionMode

end LaneCoordinatorInput

/-- `checkpoint_cavity_cache` and `with_checkpoint_cavity_cache`: a trusted checkpoint
brings its shared cache, any other call has a fresh one. -/
def checkpointCavityCache (checkpoint : IntrinsicAnytimeCheckpoint heap)
    (shared : IntrinsicCapacityCavityCache F) : IntrinsicCapacityCavityCache F :=
  if checkpoint.trustedInternal then shared else ∅

/-- `trust_for_internal_resume`. -/
def IntrinsicAnytimeCheckpoint.trustForInternalResume
    (checkpoint : IntrinsicAnytimeCheckpoint heap) : IntrinsicAnytimeCheckpoint heap :=
  { checkpoint with trustedInternal := true }

/-- Trust the checkpoint of a result, if it has one; the shared cache of one that was not
trusted is new. -/
def CachedSearchResult.trust (search : CachedSearchResult heap) : CachedSearchResult heap :=
  match search.result.checkpoint with
  | none => search
  | some checkpoint =>
      { result := { search.result with checkpoint := some checkpoint.trustForInternalResume }
        cavityCache := checkpointCavityCache checkpoint search.cavityCache }

section
variable (subsystems : SearchSubsystems heap) (identities : CheckpointIdentities heap)

/-- A fresh call. -/
def startSearch (input : ColdSearchInput heap) (maximumDepthBoundaries : ℕ) :
    Except CapacitySearchError (CachedSearchResult heap) :=
  (runIntrinsicCapacityColdSearch subsystems identities input
    ⟨none, some maximumDepthBoundaries⟩ ∅).map fun (result, cache) => ⟨result, cache⟩

/-- A call that resumes a checkpoint. -/
def resumeSearch (input : ColdSearchInput heap)
    (checkpoint : IntrinsicAnytimeCheckpoint heap) (maximumDepthBoundaries : Option ℕ)
    (shared : IntrinsicCapacityCavityCache F) :
    Except CapacitySearchError (CachedSearchResult heap) :=
  (runIntrinsicCapacityColdSearch subsystems identities input
    ⟨some checkpoint, maximumDepthBoundaries⟩ (checkpointCavityCache checkpoint shared)).map
      fun (result, cache) => ⟨result, cache⟩

/-- `run_intrinsic_capacity_scheduler_cold_quantum`, once the material areas are known. -/
def runIntrinsicCapacitySchedulerColdQuantum (input : LaneCoordinatorInput heap)
    (previous : Option (IntrinsicAnytimeCheckpoint heap × IntrinsicCapacityCavityCache F))
    (maximumDepthBoundaries : Option ℕ) :
    Except CapacitySearchError (CachedSearchResult heap) :=
  let limit := maximumDepthBoundaries.getD (coldQuantumDepths input.preparedPieces.length)
  match previous with
  | none => startSearch subsystems identities
      (input.laneInput none (some 1) input.retentionMode) limit
  | some (checkpoint, shared) => resumeSearch subsystems identities
      (input.laneInput none (some checkpoint.schedulerDeficit) input.retentionMode)
      checkpoint (some limit) shared

/-! ## §2  Lanes -/

structure ProtectedCapacityLane (heap : ℕ → IrregularPlacedPiece F) where
  role : ProtectedCapacityLaneRole
  sourceRole : Option String
  prefixDepth : Option ℕ
  reusedPlacedCount : ℕ
  warmPrefixSeed : Option (IntrinsicCapacityWarmPrefixSeed heap)
  search : CachedSearchResult heap
  endpoints : List (IntrinsicCapacityEndpoint heap)
  selectedForContinuation : Bool

/-- The endpoints of a lane: those it settled with, or those of its paused frontier. -/
def laneEndpoints (input : LaneCoordinatorInput heap)
    (warmPrefixSeed : Option (IntrinsicCapacityWarmPrefixSeed heap))
    (result : IntrinsicCapacitySearchResult heap) : List (IntrinsicCapacityEndpoint heap) :=
  if result.status = .settled then result.endpoints
  else
    match result.checkpoint with
    | none => []
    | some checkpoint => (materializeIntrinsicCapacityCheckpointEndpoints subsystems
        (input.laneInput warmPrefixSeed none none) checkpoint ∅).1

/-- `make_protected_capacity_lane`. -/
def makeProtectedCapacityLane (input : LaneCoordinatorInput heap)
    (role : ProtectedCapacityLaneRole) (sourceRole : Option String) (prefixDepth : Option ℕ)
    (reusedPlacedCount : ℕ) (warmPrefixSeed : Option (IntrinsicCapacityWarmPrefixSeed heap))
    (search : CachedSearchResult heap) (selectedForContinuation : Bool) :
    ProtectedCapacityLane heap where
  role := role
  sourceRole := sourceRole
  prefixDepth := prefixDepth
  reusedPlacedCount := reusedPlacedCount
  warmPrefixSeed := warmPrefixSeed
  search := search
  endpoints := laneEndpoints subsystems input warmPrefixSeed search.result
  selectedForContinuation := selectedForContinuation

/-- The outcome of a quantum: settled, or what a pause is called there. -/
def quantumOutcome (paused : LaneCoordinatorQuantumOutcome)
    (result : IntrinsicCapacitySearchResult heap) : LaneCoordinatorQuantumOutcome :=
  if result.status = .paused then paused else .settled

/-- What the coordinator accumulates. -/
structure LaneCoordinatorState (heap : ℕ → IrregularPlacedPiece F) where
  lanes : List (ProtectedCapacityLane heap)
  quanta : List IntrinsicCapacityLaneCoordinatorQuantum
  continuedLaneIndexes : List ℕ

/-- `add_continued_lane_index`. -/
def addContinuedLaneIndex (indexes : List ℕ) (index : ℕ) : List ℕ :=
  if indexes.contains index then indexes else indexes ++ [index]

/-! ## §3  The cold lane and the warm pilots -/

/-- What the scheduler has searched, or a first sample. -/
def coldSample (input : LaneCoordinatorInput heap) :
    Except CapacitySearchError (CachedSearchResult heap) :=
  match input.scheduledColdStart with
  | some scheduled => .ok scheduled
  | none => startSearch subsystems identities
      (input.laneInput none (some 1) input.retentionMode)
      (coldQuantumDepths input.preparedPieces.length)

/-- The cold lane after its first sample. -/
def sampleColdLane (input : LaneCoordinatorInput heap) :
    Except CapacitySearchError (LaneCoordinatorState heap) := do
  let search ← coldSample subsystems identities input
  .ok { lanes := [makeProtectedCapacityLane subsystems input .capacityCold none none 0 none
          search false]
        quanta := pushLaneCoordinatorQuantum [] .capacityCold none none .initial 0
          search.result.trace.completedDepths
          search.result.trace.consumedPlacementEvaluations
          (quantumOutcome .checkpointed search.result)
        continuedLaneIndexes := [] }

/-- One resume of a paused cold lane, without a limit. -/
def resumeColdLane (input : LaneCoordinatorInput heap) (state : LaneCoordinatorState heap) :
    Except CapacitySearchError (LaneCoordinatorState heap) :=
  match state.lanes with
  | [] => .ok state
  | lane :: lanes =>
      let initial := lane.search.result
      if initial.status = .paused then
        match initial.checkpoint with
        | none => .error (capacityError "capacityLaneCoordinator"
            "paused protected cold lane has no checkpoint.")
        | some checkpoint => do
            let resumed ← resumeSearch subsystems identities
              (input.laneInput none (some checkpoint.schedulerDeficit) input.retentionMode)
              checkpoint none lane.search.cavityCache
            .ok { lanes := makeProtectedCapacityLane subsystems input .capacityCold none none
                    0 none resumed true :: lanes
                  quanta := pushLaneCoordinatorQuantum state.quanta .capacityCold none none
                    .resume initial.trace.completedDepths
                    resumed.result.trace.completedDepths
                    (resumed.result.trace.consumedPlacementEvaluations -
                      initial.trace.consumedPlacementEvaluations)
                    (quantumOutcome .censored resumed.result)
                  continuedLaneIndexes :=
                    addContinuedLaneIndex state.continuedLaneIndexes 0 }
      else .ok state

/-- The pilot of one fitting descriptor. -/
def pilotWarmLane (input : LaneCoordinatorInput heap) (state : LaneCoordinatorState heap)
    (descriptor : IntrinsicCapacityPrefixDescriptor heap) :
    Except CapacitySearchError (LaneCoordinatorState heap) := do
  let seed : IntrinsicCapacityWarmPrefixSeed heap :=
    ⟨descriptor.role.asStr, descriptor.depth, descriptor.state⟩
  let search ← startSearch subsystems identities
    (input.laneInput (some seed) none input.retentionMode)
    intrinsicCapacityWarmPilotDepthBoundaries
  .ok { state with
    lanes := state.lanes ++ [makeProtectedCapacityLane subsystems input .capacityWarmPrefix
      (some descriptor.role.asStr) (some descriptor.depth)
      descriptor.placedPreparedIds.length (some seed) search false]
    quanta := pushLaneCoordinatorQuantum state.quanta .capacityWarmPrefix
      (some descriptor.role.asStr) (some descriptor.depth) .initial descriptor.depth
      search.result.trace.completedDepths search.result.trace.consumedPlacementEvaluations
      (quantumOutcome .checkpointed search.result) }

def pilotWarmLanes (input : LaneCoordinatorInput heap) :
    List (IntrinsicCapacityPrefixDescriptor heap) → LaneCoordinatorState heap →
      Except CapacitySearchError (LaneCoordinatorState heap)
  | [], state => .ok state
  | descriptor :: descriptors, state =>
      match pilotWarmLane subsystems identities input state descriptor with
      | .error error => .error error
      | .ok state => pilotWarmLanes input descriptors state

/-! ## §4  The warm lane that is resumed -/

def warmLanes (lanes : List (ProtectedCapacityLane heap)) :
    List (ProtectedCapacityLane heap) :=
  lanes.filter fun lane => decide (lane.role = .capacityWarmPrefix)

def warmConsumedPlacementEvaluations (lanes : List (ProtectedCapacityLane heap)) : ℕ :=
  ((warmLanes lanes).map fun lane =>
    lane.search.result.trace.consumedPlacementEvaluations).sum

def warmSettlementLaneView (lane : ProtectedCapacityLane heap) : WarmSettlementLaneView where
  role := lane.role
  isPausedWithCheckpoint := decide (lane.search.result.status = .paused) &&
    lane.search.result.checkpoint.isSome
  hasFirstEndpoint := !lane.endpoints.isEmpty
  sourceRole := lane.sourceRole
  prefixDepth := lane.prefixDepth

/-- The budget has room for one more depth. -/
def reservesDepth (cap consumed : ℕ) : Bool :=
  decide (intrinsicCapacityV1Bounds.placementEvaluationQuotaPerDepth ≤ cap - consumed)

/-- One resume of the selected warm lane by one depth: the state, and what it cost. -/
def resumeWarmLane (input : LaneCoordinatorInput heap) (selectedIndex : ℕ)
    (lane : ProtectedCapacityLane heap) (seed : IntrinsicCapacityWarmPrefixSeed heap)
    (checkpoint : IntrinsicAnytimeCheckpoint heap) (state : LaneCoordinatorState heap) :
    Except CapacitySearchError (LaneCoordinatorState heap × ℕ) := do
  let sourceRole := lane.sourceRole.getD "unknown"
  let prefixDepth := lane.prefixDepth.getD 0
  let previous := lane.search.result.trace
  let resumed ← resumeSearch subsystems identities
    (input.laneInput (some seed) (some checkpoint.schedulerDeficit) input.retentionMode)
    checkpoint (some 1) lane.search.cavityCache
  let consumedDelta := resumed.result.trace.consumedPlacementEvaluations -
    previous.consumedPlacementEvaluations
  .ok ({ lanes := state.lanes.set selectedIndex (makeProtectedCapacityLane subsystems input
           .capacityWarmPrefix (some sourceRole) (some prefixDepth) lane.reusedPlacedCount
           (some seed) resumed true)
         quanta := pushLaneCoordinatorQuantum state.quanta .capacityWarmPrefix
           (some sourceRole) (some prefixDepth) .resume previous.completedDepths
           resumed.result.trace.completedDepths consumedDelta
           (quantumOutcome .checkpointed resumed.result)
         continuedLaneIndexes :=
           addContinuedLaneIndex state.continuedLaneIndexes selectedIndex }, consumedDelta)

/-- The resume loop of the selected warm lane. -/
def resumeWarmLanes (input : LaneCoordinatorInput heap) (selectedIndex : ℕ) :
    ℕ → LaneCoordinatorState heap → ℕ →
      Option (Except CapacitySearchError (LaneCoordinatorState heap × ℕ))
  | 0, _, _ => none
  | fuel + 1, state, warmConsumed =>
      if reservesDepth input.baseCap warmConsumed then
        match state.lanes[selectedIndex]? with
        | none => some (.ok (state, warmConsumed))
        | some lane =>
            match lane.warmPrefixSeed, lane.search.result.checkpoint with
            | some seed, some checkpoint =>
                match resumeWarmLane subsystems identities input selectedIndex lane seed
                    checkpoint state with
                | .error error => some (.error error)
                | .ok (state, consumedDelta) =>
                    resumeWarmLanes input selectedIndex fuel state
                      (warmConsumed + consumedDelta)
            | _, _ => some (.ok (state, warmConsumed))
      else some (.ok (state, warmConsumed))

/-- Select the warm lane once, and resume it while it pays. -/
def settleWarmLane (input : LaneCoordinatorInput heap) (fuel : ℕ)
    (state : LaneCoordinatorState heap) :
    Option (Except CapacitySearchError (LaneCoordinatorState heap × ℕ)) :=
  let warmConsumed := warmConsumedPlacementEvaluations state.lanes
  match selectProtectedWarmSettlementLane (state.lanes.map warmSettlementLaneView) with
  | none => some (.ok (state, warmConsumed))
  | some selectedIndex =>
      resumeWarmLanes subsystems identities input selectedIndex fuel state warmConsumed

/-! ## §5  The quality lane -/

/-- The deepest canonical-grid descriptor; the first of equal depth. -/
def deepestQualityDescriptor (input : LaneCoordinatorInput heap) :
    Option (IntrinsicCapacityPrefixDescriptor heap) :=
  ((input.fittingDescriptors.filter fun descriptor =>
    decide (descriptor.role = .canonicalGrid)).mergeSort fun first second =>
      decide (second.depth ≤ first.depth)).head?

def qualityDescriptor (input : LaneCoordinatorInput heap) :
    Option (IntrinsicCapacityPrefixDescriptor heap) :=
  if intrinsicCapacityQualityMinimumPieceCount ≤ input.preparedPieces.length then
    deepestQualityDescriptor input
  else none

def aggregatePlacementEvaluationCap (input : LaneCoordinatorInput heap) : ℕ :=
  input.baseCap * if (qualityDescriptor input).isNone then 2 else 3

/-- The trace of a quality lane that does not run. -/
def skippedQualityWarmPrefix (input : LaneCoordinatorInput heap) :
    IntrinsicCapacityQualityWarmPrefixTrace F :=
  let skipped : IntrinsicCapacityQualityWarmPrefixTrace F :=
    { version := intrinsicCapacityQualityWarmPrefixTraceVersion
      producerRole := "capacity-quality-warm-prefix"
      policy := "quality-frontier"
      status := .skippedNoFittingCanonicalPrefix
      outputInfluence := .none
      sourceRole := none
      prefixDepth := none
      reusedPlacedCount := 0
      requestPieceCount := input.preparedPieces.length
      minimumPieceCount := intrinsicCapacityQualityMinimumPieceCount
      placementEvaluationCap := input.baseCap
      consumedPlacementEvaluations := 0
      completedDepths := 0
      checkpointRetained := false
      endpoint := none }
  match deepestQualityDescriptor input with
  | none => skipped
  | some descriptor =>
      if input.preparedPieces.length < intrinsicCapacityQualityMinimumPieceCount then
        { skipped with
          status := .skippedBelowMinimumPieceCount
          sourceRole := some "canonical-grid"
          prefixDepth := some descriptor.depth
          reusedPlacedCount := descriptor.placedPreparedIds.length }
      else skipped

/-- What the quality lane hands on. -/
structure QualityLaneRun (heap : ℕ → IrregularPlacedPiece F) where
  search : CachedSearchResult heap
  quanta : List IntrinsicCapacityLaneCoordinatorQuantum
  continued : Bool

/-- The resume loop of the quality lane. -/
def resumeQualityLane (input : LaneCoordinatorInput heap)
    (seed : IntrinsicCapacityWarmPrefixSeed heap) :
    ℕ → QualityLaneRun heap → Option (Except CapacitySearchError (QualityLaneRun heap))
  | 0, _ => none
  | fuel + 1, run =>
      let previous := run.search.result
      if previous.status = .paused ∧
          reservesDepth input.baseCap previous.trace.consumedPlacementEvaluations then
        match previous.checkpoint with
        | none => some (.ok run)
        | some checkpoint =>
            match resumeSearch subsystems identities
                (input.laneInput (some seed) (some checkpoint.schedulerDeficit)
                  (some .qualityFrontier)) checkpoint (some 1) run.search.cavityCache with
            | .error error => some (.error error)
            | .ok resumed => resumeQualityLane input seed fuel
                { search := resumed
                  quanta := pushLaneCoordinatorQuantum run.quanta .capacityQualityWarmPrefix
                    (some "canonical-grid") (some seed.depth) .resume
                    previous.trace.completedDepths resumed.result.trace.completedDepths
                    (resumed.result.trace.consumedPlacementEvaluations -
                      previous.trace.consumedPlacementEvaluations)
                    (quantumOutcome .checkpointed resumed.result)
                  continued := true }
      else some (.ok run)

/-- The first sample of the quality lane. -/
def sampleQualityLane (input : LaneCoordinatorInput heap)
    (seed : IntrinsicCapacityWarmPrefixSeed heap)
    (quanta : List IntrinsicCapacityLaneCoordinatorQuantum) :
    Except CapacitySearchError (QualityLaneRun heap) := do
  let search ← startSearch subsystems identities
    (input.laneInput (some seed) none (some .qualityFrontier))
    intrinsicCapacityWarmPilotDepthBoundaries
  .ok { search := search
        quanta := pushLaneCoordinatorQuantum quanta .capacityQualityWarmPrefix
          (some "canonical-grid") (some seed.depth) .initial seed.depth
          search.result.trace.completedDepths
          search.result.trace.consumedPlacementEvaluations
          (quantumOutcome .checkpointed search.result)
        continued := false }

/-- What the quality phase adds to the coordinator. -/
structure QualityPhase (heap : ℕ → IrregularPlacedPiece F) where
  endpoints : List (IntrinsicCapacityEndpoint heap)
  trace : IntrinsicCapacityQualityWarmPrefixTrace F
  quanta : List IntrinsicCapacityLaneCoordinatorQuantum
  continued : Bool

/-- The summary of a quality lane that ran; a paused one is censored. -/
def closeQualityLane (input : LaneCoordinatorInput heap)
    (descriptor : IntrinsicCapacityPrefixDescriptor heap)
    (seed : IntrinsicCapacityWarmPrefixSeed heap) (run : QualityLaneRun heap) :
    QualityPhase heap :=
  let result := run.search.result
  let lane := makeProtectedCapacityLane subsystems input .capacityQualityWarmPrefix
    (some "canonical-grid") (some descriptor.depth) descriptor.placedPreparedIds.length
    (some seed) run.search run.continued
  { endpoints := lane.endpoints
    trace :=
      { version := intrinsicCapacityQualityWarmPrefixTraceVersion
        producerRole := "capacity-quality-warm-prefix"
        policy := "quality-frontier"
        status :=
          if result.status = .paused then .checkpointedCensored
          else if result.trace.settlement = .evaluationCap then .evaluationCap
          else .settled
        outputInfluence := .none
        sourceRole := some "canonical-grid"
        prefixDepth := some descriptor.depth
        reusedPlacedCount := descriptor.placedPreparedIds.length
        requestPieceCount := input.preparedPieces.length
        minimumPieceCount := intrinsicCapacityQualityMinimumPieceCount
        placementEvaluationCap := input.baseCap
        consumedPlacementEvaluations := result.trace.consumedPlacementEvaluations
        completedDepths := result.trace.completedDepths
        checkpointRetained := result.checkpoint.isSome
        endpoint := lane.endpoints.head?.map intrinsicCapacityObjective }
    quanta :=
      if result.status = .paused then
        pushLaneCoordinatorQuantum run.quanta .capacityQualityWarmPrefix
          (some "canonical-grid") (some descriptor.depth) .censor
          result.trace.completedDepths result.trace.completedDepths 0 .censored
      else run.quanta
    continued := run.continued }

/-- The quality phase. -/
def runQualityLane (input : LaneCoordinatorInput heap) (fuel : ℕ)
    (quanta : List IntrinsicCapacityLaneCoordinatorQuantum) :
    Option (Except CapacitySearchError (QualityPhase heap)) :=
  match qualityDescriptor input with
  | none => some (.ok ⟨[], skippedQualityWarmPrefix input, quanta, false⟩)
  | some descriptor =>
      let seed : IntrinsicCapacityWarmPrefixSeed heap :=
        ⟨"canonical-grid", descriptor.depth, descriptor.state⟩
      match sampleQualityLane subsystems identities input seed quanta with
      | .error error => some (.error error)
      | .ok run =>
          match resumeQualityLane subsystems identities input seed fuel run with
          | none => none
          | some (.error error) => some (.error error)
          | some (.ok run) => some (.ok (closeQualityLane subsystems input descriptor seed run))

/-! ## §6  The coordinator -/

/-- Every paused warm lane is censored where it stands. -/
def censorWarmLanes (lanes : List (ProtectedCapacityLane heap))
    (quanta : List IntrinsicCapacityLaneCoordinatorQuantum) :
    List IntrinsicCapacityLaneCoordinatorQuantum :=
  lanes.foldl (fun quanta lane =>
    let result := lane.search.result
    if result.status = .paused then
      pushLaneCoordinatorQuantum quanta .capacityWarmPrefix
        (some (lane.sourceRole.getD "unknown")) (some (lane.prefixDepth.getD 0)) .censor
        result.trace.completedDepths result.trace.completedDepths 0 .censored
    else quanta) quanta

def warmPrefixLaneTrace (lane : ProtectedCapacityLane heap) :
    IntrinsicCapacityWarmPrefixLaneTrace F where
  sourceRole := lane.sourceRole.getD "unknown"
  prefixDepth := lane.prefixDepth.getD 0
  reusedPlacedCount := lane.reusedPlacedCount
  status := if lane.search.result.status = .paused then .checkpointedCensored else .settled
  selectedForContinuation := lane.selectedForContinuation
  checkpointRetained := lane.search.result.checkpoint.isSome
  consumedPlacementEvaluations := lane.search.result.trace.consumedPlacementEvaluations
  completedDepths := lane.search.result.trace.completedDepths
  endpoint := lane.endpoints.head?.map intrinsicCapacityObjective

def continuedProducer (lane : ProtectedCapacityLane heap) : LaneCoordinatorContinuedProducer :=
  if lane.role = .capacityCold then .capacityCold
  else .capacityWarmPrefix (lane.sourceRole.getD "unknown") (lane.prefixDepth.getD 0)

structure ProtectedCapacityLaneCoordinatorResult (heap : ℕ → IrregularPlacedPiece F) where
  coldSearch : IntrinsicCapacitySearchResult heap
  coldEndpoints : List (IntrinsicCapacityEndpoint heap)
  warmEndpoints : List (IntrinsicCapacityEndpoint heap)
  warmPrefixLanes : List (IntrinsicCapacityWarmPrefixLaneTrace F)
  qualityEndpoints : List (IntrinsicCapacityEndpoint heap)
  qualityWarmPrefix : IntrinsicCapacityQualityWarmPrefixTrace F
  trace : IntrinsicCapacityLaneCoordinatorTrace

/-- The accounts of the finished lanes. -/
def settleCoordinator (input : LaneCoordinatorInput heap) (state : LaneCoordinatorState heap)
    (warmConsumed : ℕ) (quality : QualityPhase heap) :
    Except CapacitySearchError (ProtectedCapacityLaneCoordinatorResult heap) :=
  match state.lanes.find? fun lane => decide (lane.role = .capacityCold) with
  | none => .error (capacityError "capacityLaneCoordinator"
      "protected capacity coordination lost the cold lane.")
  | some coldLane =>
      let warm := warmLanes state.lanes
      let retainedCheckpointCount :=
        (state.lanes.countP fun lane => decide (lane.search.result.status = .paused)) +
          if quality.trace.status = .checkpointedCensored then 1 else 0
      .ok { coldSearch := coldLane.search.result
            coldEndpoints := coldLane.endpoints
            warmEndpoints := warm.flatMap fun lane => lane.endpoints
            warmPrefixLanes := warm.map warmPrefixLaneTrace
            qualityEndpoints := quality.endpoints
            qualityWarmPrefix := quality.trace
            trace :=
              { version := intrinsicCapacityLaneCoordinatorTraceVersion
                aggregatePlacementEvaluationCap := aggregatePlacementEvaluationCap input
                aggregateConsumedPlacementEvaluations :=
                  coldLane.search.result.trace.consumedPlacementEvaluations + warmConsumed +
                    quality.trace.consumedPlacementEvaluations
                warmPilotDepthBoundaries := intrinsicCapacityWarmPilotDepthBoundaries
                continuedProducers :=
                  (state.continuedLaneIndexes.filterMap fun index =>
                    state.lanes[index]?.map continuedProducer) ++
                  if quality.continued then
                    [.capacityQualityWarmPrefix "canonical-grid"
                      (((qualityDescriptor input).map fun descriptor =>
                        descriptor.depth).getD 0)]
                  else []
                retainedCheckpointCount := retainedCheckpointCount
                censoredLaneCount := retainedCheckpointCount
                quanta := censorWarmLanes warm quality.quanta } }

/-- The sampled lanes: cold, resumed, and the warm pilots. -/
def sampleLanes (input : LaneCoordinatorInput heap) :
    Except CapacitySearchError (LaneCoordinatorState heap) := do
  let state ← sampleColdLane subsystems identities input
  let state ← resumeColdLane subsystems identities input state
  pilotWarmLanes subsystems identities input input.fittingDescriptors state

/-- `run_protected_capacity_lane_coordinator`. -/
def runProtectedCapacityLaneCoordinator (input : LaneCoordinatorInput heap) (fuel : ℕ) :
    Option (Except CapacitySearchError (ProtectedCapacityLaneCoordinatorResult heap)) :=
  match sampleLanes subsystems identities input with
  | .error error => some (.error error)
  | .ok state =>
      match settleWarmLane subsystems identities input fuel state with
      | none => none
      | some (.error error) => some (.error error)
      | some (.ok (state, warmConsumed)) =>
          match runQualityLane subsystems identities input fuel state.quanta with
          | none => none
          | some (.error error) => some (.error error)
          | some (.ok quality) =>
              some (settleCoordinator input state warmConsumed quality)

end

end PolygonNesting
