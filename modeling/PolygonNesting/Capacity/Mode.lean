import PolygonNesting.Archive.Anytime
import PolygonNesting.Capacity.LaneCoordinator

/-!
# Capacity mode

Fitting prefixes of committed constructions become incumbents without any
evaluation, the lanes run, and one partial endpoint is settled: the best of the
base endpoints, or the endpoint of the quality lane when it places strictly
more pieces, or the empty layout.

The detailed trace is built from the finished run and read by nothing; it and
the clocks are left out.  The exact material area of one piece is a parameter.
-/

namespace PolygonNesting

variable {F : Type} [LinearOrder F] [Zero F] [One F] [Add F] [Sub F] [Neg F]
  [Mul F] [Div F] [JsMath F] {heap : ℕ → IrregularPlacedPiece F}

/-! ## §1  Material -/

/-- `intrinsic_capacity_material_areas`: the first piece without an area, or with the id of an
earlier one, is reported. -/
def intrinsicCapacityMaterialAreas (doubledArea : IrregularPreparedPiece F → Option ℤ) :
    List (IrregularPreparedPiece F) → (AList fun _ : PieceId => ℤ) →
      Except PieceId MaterialAreas
  | [], areas => .ok areas.lookup
  | piece :: rest, areas =>
      let pieceId := intrinsicCapacityPreparedPieceId piece
      match doubledArea piece with
      | none => .error pieceId
      | some area =>
          if (areas.lookup pieceId).isSome then .error pieceId
          else intrinsicCapacityMaterialAreas doubledArea rest (areas.insert pieceId area)

/-! ## §2  Prefixes -/

def intrinsicCapacityMaximumPrefixDescriptors : ℕ := 9

/-- A committed state and its ancestors, from the state back to the empty one. -/
structure IntrinsicCapacityPrefixSource (heap : ℕ → IrregularPlacedPiece F) where
  role : String
  lineage : List (CapacityState heap)

/-- Quarter, half and three-quarter depths, each once. -/
def intrinsicCapacityPrefixDepths (pieceCount : ℕ) : List ℕ :=
  [pieceCount / 4, pieceCount / 2, 3 * pieceCount / 4].eraseDups.filter fun depth =>
    decide (1 ≤ depth) && decide (depth < pieceCount)

/-- A skip-free processed prefix of the prepared order. -/
def isExactPreparedPrefix (state : CapacityState heap) (preparedIds : List PieceId)
    (depth : ℕ) : Bool :=
  let remaining := state.remainingPreparedPieces.map intrinsicCapacityPreparedPieceId
  state.unplacedPieceIds.isEmpty &&
    state.placementOrder.length == depth &&
    (state.placementOrder.zip preparedIds).all (fun (placedId, preparedId) =>
      placedId == preparedId) &&
    remaining.length == preparedIds.length - depth &&
    (remaining.zip (preparedIds.drop depth)).all fun (remainingId, preparedId) =>
      remainingId == preparedId

/-- The state of a lineage that has processed so many pieces: the latest of them. -/
def stateAtProcessedCount (lineage : List (CapacityState heap)) (depth : ℕ) :
    Option (CapacityState heap) :=
  lineage.find? fun state =>
    state.placementOrder.length + state.unplacedPieceIds.length == depth

def intrinsicSharedArchiveDirectRoles : List IntrinsicSharedArchiveDirectRole :=
  [.canonicalGrid, .legacyAbsoluteEnvelope, .openPocketFirst]

def captureIntrinsicCapacityPrefixDescriptors (preparedPieces : List (IrregularPreparedPiece F))
    (sources : List (IntrinsicCapacityPrefixSource heap)) :
    List (IntrinsicCapacityPrefixDescriptor heap) :=
  let preparedIds := preparedPieces.map intrinsicCapacityPreparedPieceId
  let depths := intrinsicCapacityPrefixDepths preparedIds.length
  (intrinsicSharedArchiveDirectRoles.flatMap fun role =>
    match sources.find? fun candidate => decide (candidate.role = role.asStr) with
    | none => []
    | some source => depths.filterMap fun depth =>
        match stateAtProcessedCount source.lineage depth with
        | none => none
        | some state =>
            if isExactPreparedPrefix state preparedIds depth then
              some ⟨role, depth, state, state.placementOrder, preparedIds.drop depth⟩
            else none).take intrinsicCapacityMaximumPrefixDescriptors

structure IntrinsicCapacityPrefixTerminalization (heap : ℕ → IrregularPlacedPiece F) where
  capturedCount : ℕ
  fittingCount : ℕ
  rejectedCount : ℕ
  fittingDescriptors : List (IntrinsicCapacityPrefixDescriptor heap)
  endpoints : List (IntrinsicCapacityEndpoint heap)
  incumbent : Option (IntrinsicCapacityEndpoint heap)

section

variable (subsystems : SearchSubsystems heap) (identities : CheckpointIdentities heap)

/-- The loop over the descriptors. -/
def terminalizeDescriptors (sheet : SheetSpec F) (areas : MaterialAreas) :
    List (IntrinsicCapacityPrefixDescriptor heap) →
    (AList fun _ : String => IntrinsicCapacityEndpoint heap) →
    List (IntrinsicCapacityPrefixDescriptor heap) → IntrinsicCapacityCavityCache F →
      (AList fun _ : String => IntrinsicCapacityEndpoint heap) ×
        List (IntrinsicCapacityPrefixDescriptor heap) × IntrinsicCapacityCavityCache F
  | [], byHash, fitting, cache => (byHash, fitting, cache)
  | descriptor :: rest, byHash, fitting, cache =>
      match materializeIntrinsicCapacityEndpoint subsystems.toLayoutAuthority
          { sheet
            state := descriptor.state
            unplacedPreparedIds := descriptor.remainingPreparedIds
            origin := .prefixIncumbent
            sourceRole := some descriptor.role.asStr
            prefixDepth := some descriptor.depth
            materialAreasByPieceId := areas } cache with
      | (none, cache) => terminalizeDescriptors sheet areas rest byHash fitting cache
      | (some endpoint, cache) => terminalizeDescriptors sheet areas rest
          (insertEndpointByHash subsystems.toLayoutAuthority byHash endpoint)
          (fitting ++ [descriptor]) cache

def terminalizeIntrinsicCapacityPrefixEndpoints (sheet : SheetSpec F)
    (descriptors : List (IntrinsicCapacityPrefixDescriptor heap)) (areas : MaterialAreas)
    (cache : IntrinsicCapacityCavityCache F) :
    IntrinsicCapacityPrefixTerminalization heap × IntrinsicCapacityCavityCache F :=
  let (byHash, fitting, cache) :=
    terminalizeDescriptors subsystems sheet areas descriptors ∅ [] cache
  let endpoints := rankedEndpoints subsystems.toLayoutAuthority byHash
  ({ capturedCount := descriptors.length
     fittingCount := fitting.length
     rejectedCount := descriptors.length - fitting.length
     fittingDescriptors := fitting
     endpoints
     incumbent := endpoints.head? }, cache)

/-! ## §3  The lanes -/

structure RunIntrinsicCapacityModeInput (heap : ℕ → IrregularPlacedPiece F) where
  sheet : SheetSpec F
  preparedPieces : List (IrregularPreparedPiece F)
  prefixSources : List (IntrinsicCapacityPrefixSource heap)
  captureCohesionShadow : Bool
  scheduledColdStart : Option (CachedSearchResult heap)
  admitWarmPrefixEndpoints : Bool
  coordinateProtectedLanes : Bool
  retentionMode : Option IntrinsicCapacityRetentionMode

namespace RunIntrinsicCapacityModeInput

def preparedIds (input : RunIntrinsicCapacityModeInput heap) : List PieceId :=
  input.preparedPieces.map intrinsicCapacityPreparedPieceId

/-- The search input of the uncoordinated cold lane and of the shadow. -/
def searchInput (input : RunIntrinsicCapacityModeInput heap) (areas : MaterialAreas)
    (incumbent : Option (IntrinsicCapacityEndpoint heap)) (schedulerDeficit : Option ℕ)
    (retentionMode : Option IntrinsicCapacityRetentionMode) : ColdSearchInput heap where
  sheet := input.sheet
  preparedPieces := input.preparedPieces
  materialAreasByPieceId := areas
  incumbent
  warmPrefixSeed := none
  schedulerDeficit
  retentionMode

def coordinatorInput (input : RunIntrinsicCapacityModeInput heap) (areas : MaterialAreas)
    (terminalization : IntrinsicCapacityPrefixTerminalization heap) :
    LaneCoordinatorInput heap where
  sheet := input.sheet
  preparedPieces := input.preparedPieces
  materialAreasByPieceId := areas
  fittingDescriptors := terminalization.fittingDescriptors
  scheduledColdStart := input.scheduledColdStart
  retentionMode := input.retentionMode

end RunIntrinsicCapacityModeInput

/-- What the lanes came to. -/
structure LaneOutcome (heap : ℕ → IrregularPlacedPiece F) where
  coordinated : Option (ProtectedCapacityLaneCoordinatorResult heap)
  coldSearch : IntrinsicCapacitySearchResult heap
  cavityCache : IntrinsicCapacityCavityCache F

/-- The cold lane on its own: a scheduled start that has settled, or the search from where it
paused. -/
def runColdLane (input : RunIntrinsicCapacityModeInput heap) (areas : MaterialAreas)
    (terminalization : IntrinsicCapacityPrefixTerminalization heap)
    (cache : IntrinsicCapacityCavityCache F) : Except CapacitySearchError (LaneOutcome heap) :=
  match input.scheduledColdStart.filter fun scheduled =>
      decide (scheduled.result.status = .settled) with
  | some scheduled => .ok ⟨none, scheduled.result, cache⟩
  | none =>
      let checkpoint := input.scheduledColdStart.bind fun scheduled =>
        scheduled.result.checkpoint
      let incumbent := if checkpoint.isNone then terminalization.incumbent else none
      (runIntrinsicCapacityColdSearch subsystems identities
        (input.searchInput areas incumbent
          (checkpoint.map fun checkpoint => checkpoint.schedulerDeficit) input.retentionMode)
        ⟨checkpoint, none⟩ cache).map fun (result, cache) => ⟨none, result, cache⟩

/-- The lanes of the mode.  The resume loops of the coordinator take fuel. -/
def runCapacityLanes (input : RunIntrinsicCapacityModeInput heap) (areas : MaterialAreas)
    (terminalization : IntrinsicCapacityPrefixTerminalization heap)
    (cache : IntrinsicCapacityCavityCache F) (fuel : ℕ) :
    Option (Except CapacitySearchError (LaneOutcome heap)) :=
  if input.coordinateProtectedLanes then
    (runProtectedCapacityLaneCoordinator subsystems identities
      (input.coordinatorInput areas terminalization) fuel).map fun outcome =>
        outcome.map fun result => ⟨some result, result.coldSearch, cache⟩
  else some (runColdLane subsystems identities input areas terminalization cache)

/-- `run_intrinsic_capacity_cohesion_shadow`: an observer whose failures are the mode's. -/
def runIntrinsicCapacityCohesionShadow (input : RunIntrinsicCapacityModeInput heap)
    (areas : MaterialAreas) : Except CapacitySearchError Unit :=
  match runIntrinsicCapacityColdSearch subsystems identities
      (input.searchInput areas none none (some .cohesionFrontierShadow)) ⟨none, none⟩ ∅ with
  | .error error => .error error
  | .ok (result, _) =>
      if result.status ≠ .settled then
        .error (capacityError "capacityCohesionShadow"
          "the independent cohesion observer did not settle.")
      else .ok ()

/-! ## §4  Settlement -/

/-- `makeAllUnplacedFallbackEndpoint`. -/
def makeAllUnplacedFallbackEndpoint (input : RunIntrinsicCapacityModeInput heap)
    (areas : MaterialAreas) (cache : IntrinsicCapacityCavityCache F) :
    Option (IntrinsicCapacityEndpoint heap) :=
  (materializeIntrinsicCapacityEndpoint subsystems.toLayoutAuthority
    { sheet := input.sheet
      state := (IrregularBeamState.empty input.preparedPieces : CapacityState heap)
      unplacedPreparedIds := input.preparedIds
      origin := .coldSearch
      sourceRole := none
      prefixDepth := none
      materialAreasByPieceId := areas } cache).1

/-- The filter of the partial namespace. -/
def capacityEndpointValid (preparedIds : List PieceId)
    (endpoint : IntrinsicCapacityEndpoint heap) : Bool :=
  endpoint.metrics.placedCount == endpoint.placedPreparedIds.length &&
    intrinsicCapacityEndpointPartitionsRequest endpoint.placedPreparedIds
      endpoint.unplacedPreparedIds preparedIds

/-- The partial namespace of the archive. -/
def partialNamespacePolicy (authority : LayoutAuthority heap) (preparedIds : List PieceId)
    (endpoints : List (IntrinsicCapacityEndpoint heap)) :
    IntrinsicAnytimeArchiveNamespacePolicy (IntrinsicCapacityEndpoint heap) where
  endpoints
  identity endpoint := some endpoint.canonicalGeometryHash
  validate := capacityEndpointValid preparedIds
  selectDuplicate retained candidate :=
    if compareIntrinsicCapacityEndpoints authority candidate retained = .lt then candidate
    else retained
  rank unique := unique.mergeSort (sortLe (compareIntrinsicCapacityEndpoints authority))

def intrinsicCapacityQualityStrictlyImprovesPlacedCount
    (candidatePlacedCount incumbentPlacedCount : Option ℕ) : Bool :=
  match candidatePlacedCount with
  | some candidate => decide (incumbentPlacedCount.getD 0 < candidate)
  | none => false

/-- The endpoints of the cold lane, of the prefixes and of the admitted warm lanes. -/
def baseEndpoints (input : RunIntrinsicCapacityModeInput heap)
    (terminalization : IntrinsicCapacityPrefixTerminalization heap) (lanes : LaneOutcome heap) :
    List (IntrinsicCapacityEndpoint heap) :=
  (match lanes.coordinated with
    | some coordinated => coordinated.coldEndpoints
    | none => lanes.coldSearch.endpoints) ++ terminalization.endpoints ++
  if input.admitWarmPrefixEndpoints then
    (lanes.coordinated.map fun coordinated => coordinated.warmEndpoints).getD []
  else []

/-- The first endpoint of the quality lane. -/
def LaneOutcome.qualityEndpoint (lanes : LaneOutcome heap) :
    Option (IntrinsicCapacityEndpoint heap) :=
  lanes.coordinated.bind fun coordinated => coordinated.qualityEndpoints.head?

/-- The ranked candidates: the base namespace, or that and the quality endpoint. -/
def capacityCandidates (input : RunIntrinsicCapacityModeInput heap)
    (terminalization : IntrinsicCapacityPrefixTerminalization heap) (lanes : LaneOutcome heap) :
    List (IntrinsicCapacityEndpoint heap) :=
  let baseCandidates := retainIntrinsicAnytimeArchiveNamespace
    (partialNamespacePolicy subsystems.toLayoutAuthority input.preparedIds
      (baseEndpoints input terminalization lanes))
  if intrinsicCapacityQualityStrictlyImprovesPlacedCount
      (lanes.qualityEndpoint.map fun endpoint => endpoint.metrics.placedCount)
      (baseCandidates.head?.map fun endpoint => endpoint.metrics.placedCount) then
    retainIntrinsicAnytimeArchiveNamespace
      (partialNamespacePolicy subsystems.toLayoutAuthority input.preparedIds
        (baseCandidates ++ lanes.qualityEndpoint.toList))
  else baseCandidates

structure IntrinsicCapacityDiagnosticSummary (F : Type) where
  settlement : IntrinsicCapacitySettlement
  selectedObjective : IntrinsicCapacityObjective F
  unplacedCount : ℕ
  consumedPlacementEvaluations : ℕ
  placementEvaluationCap : ℕ
  prunedByAttainableCount : ℕ
  prunedByAttainableMaterial : ℕ
  fittingPrefixCount : ℕ
  capturedPrefixCount : ℕ
  warmPrefixEndpointsAdmitted : Bool
  deriving DecidableEq

structure IntrinsicCapacityModeResult (heap : ℕ → IrregularPlacedPiece F) where
  endpoint : IntrinsicCapacityEndpoint heap
  diagnosticSummary : IntrinsicCapacityDiagnosticSummary F
  deriving DecidableEq

/-- From the lanes to the result. -/
def settleCapacityMode (input : RunIntrinsicCapacityModeInput heap) (areas : MaterialAreas)
    (terminalization : IntrinsicCapacityPrefixTerminalization heap) (lanes : LaneOutcome heap) :
    Except CapacitySearchError (IntrinsicCapacityModeResult heap) :=
  match (capacityCandidates subsystems input terminalization lanes).head?.or
      (makeAllUnplacedFallbackEndpoint subsystems input areas lanes.cavityCache) with
  | none => .error (capacityError "capacitySettlement"
      "capacity mode could not settle any exact partial endpoint.")
  | some selected =>
      if !intrinsicCapacityEndpointPartitionsRequest selected.placedPreparedIds
          selected.unplacedPreparedIds input.preparedIds then
        .error (capacityError "capacityPartition"
          "settled capacity endpoint does not exactly partition the prepared request.")
      else .ok {
        endpoint := selected
        diagnosticSummary := {
          settlement := lanes.coldSearch.trace.settlement
          selectedObjective := intrinsicCapacityObjective selected
          unplacedCount := selected.unplacedPreparedIds.length
          consumedPlacementEvaluations := lanes.coldSearch.trace.consumedPlacementEvaluations
          placementEvaluationCap := lanes.coldSearch.trace.placementEvaluationCap
          prunedByAttainableCount := lanes.coldSearch.trace.prunedByAttainableCount
          prunedByAttainableMaterial := lanes.coldSearch.trace.prunedByAttainableMaterial
          fittingPrefixCount := terminalization.fittingCount
          capturedPrefixCount := terminalization.capturedCount
          warmPrefixEndpointsAdmitted := input.admitWarmPrefixEndpoints } }

/-- `run_intrinsic_capacity_mode`. -/
def runIntrinsicCapacityMode (doubledArea : IrregularPreparedPiece F → Option ℤ)
    (input : RunIntrinsicCapacityModeInput heap) (fuel : ℕ) :
    Option (Except CapacitySearchError (IntrinsicCapacityModeResult heap)) :=
  match intrinsicCapacityMaterialAreas doubledArea input.preparedPieces ∅ with
  | .error pieceId => some (.error (capacityError "capacityMaterialAreas"
      ("piece " ++ pieceId ++ " has no exact positive unpadded material area.")))
  | .ok areas =>
      let (terminalization, cache) := terminalizeIntrinsicCapacityPrefixEndpoints subsystems
        input.sheet
        (captureIntrinsicCapacityPrefixDescriptors input.preparedPieces input.prefixSources)
        areas ∅
      match runCapacityLanes subsystems identities input areas terminalization cache fuel with
      | none => none
      | some (.error error) => some (.error error)
      | some (.ok lanes) =>
          match if input.captureCohesionShadow then
              runIntrinsicCapacityCohesionShadow subsystems identities input areas
            else .ok () with
          | .error error => some (.error error)
          | .ok () => some (settleCapacityMode subsystems input areas terminalization lanes)

end

end PolygonNesting
