import PolygonNesting.Capacity.Checkpoint

/-!
# A call of the capacity search

The preamble, the depth loop with its pause boundaries, and the settlement.  A
call starts from the empty state, from a warm prefix or from a checkpoint; it
ends paused, with a checkpoint, or settled, with the ranked endpoints.

The cavity cache is the caller's: a call takes it and gives it back.  The depth
loop keeps what a checkpoint saves (`SearchProgress`) apart from what it only
accounts for (`SearchAccounts`).
-/

namespace PolygonNesting

variable {F : Type} [LinearOrder F] [Zero F] [One F] [Add F] [Sub F] [Neg F]
  [Mul F] [Div F] [JsMath F] {heap : ℕ → IrregularPlacedPiece F}

/-! ## §1  The preamble -/

/-- The grid sheet and the suffix sums, or the error of the first that fails. -/
def makeSearchContext (subsystems : SearchSubsystems heap) (input : ColdSearchInput heap) :
    Except CapacitySearchError (SearchContext heap) :=
  match toGridMm input.sheet.width, toGridMm input.sheet.height with
  | some sheetWidthGrid, some sheetHeightGrid =>
      match suffixMaterialSums input.materialAreasByPieceId input.preparedIds with
      | none => .error (capacityError "coldSearchMaterial"
          "capacity material accounting is incomplete for the prepared pieces.")
      | some suffixMaterial =>
          .ok ⟨subsystems, input, sheetWidthGrid, sheetHeightGrid, suffixMaterial⟩
  | _, _ => .error (capacityError "coldSearchSheet"
      "requested sheet has no exact canonical-grid representation.")

/-- `validate_warm_prefix_seed`: the beam entry of a fitting, skip-free prefix. -/
def validateWarmPrefixSeed (context : SearchContext heap)
    (seed : IntrinsicCapacityWarmPrefixSeed heap)
    (cache : IntrinsicCapacityCavityCache F) :
    Except String (CapacityEntry heap) × IntrinsicCapacityCavityCache F :=
  let preparedIds := context.input.preparedIds
  let state := seed.state
  if seed.sourceRole.isEmpty || !isSafeCount seed.depth || seed.depth == 0 ||
      decide (preparedIds.length ≤ seed.depth) then
    (.error "warm prefix role or depth is invalid.", cache)
  else if state.unplacedPieceIds ≠ [] ∨
      state.placementOrder ≠ preparedIds.take seed.depth ∨
      state.remainingPreparedPieces.map intrinsicCapacityPreparedPieceId ≠
        preparedIds.drop seed.depth then
    (.error "warm prefix must be an exact skip-free prefix of the prepared order.", cache)
  else
    match (preparedIds.take seed.depth).find? fun pieceId =>
        (context.input.materialAreasByPieceId pieceId).isNone with
    | some pieceId =>
        (.error ("warm prefix piece " ++ pieceId ++ " has no material area."), cache)
    | none =>
        match intrinsicCapacityStateGridSpan state with
        | none => (.error "warm prefix has no exact occupied span.", cache)
        | some gridSpan =>
            let fitMask := intrinsicCapacitySpanFitsSheet gridSpan context.sheetWidthGrid
              context.sheetHeightGrid
            if !fitMask.1 && !fitMask.2 then
              (.error "warm prefix does not fit the requested sheet.", cache)
            else
              match state.bottomLeftAnchoredCanonicalOccupiedGeometryKey with
              | none => (.error "warm prefix has no anchored occupied identity.", cache)
              | some anchoredOccupiedKey =>
                  match measureIntrinsicCapacityCavities
                      context.subsystems.toLayoutAuthority state cache with
                  | (none, cache) =>
                      (.error "warm prefix cavity measurement failed.", cache)
                  | (some cavities, cache) =>
                      (.ok ⟨state,
                        (sumMaterialAreas (preparedIds.take seed.depth)
                          context.input.materialAreasByPieceId).getD 0,
                        anchoredOccupiedKey, gridSpan, cavities⟩, cache)

/-- The start of a lane: its depth and its only entry. -/
structure LaneStart (heap : ℕ → IrregularPlacedPiece F) where
  initialDepth : ℕ
  entry : CapacityEntry heap

/-- The empty state, or the warm prefix. -/
def laneStart (context : SearchContext heap) (cache : IntrinsicCapacityCavityCache F) :
    Except CapacitySearchError (LaneStart heap) × IntrinsicCapacityCavityCache F :=
  match context.input.warmPrefixSeed with
  | none =>
      let emptyState := IrregularBeamState.empty context.input.preparedPieces
      match intrinsicCapacityStateGridSpan emptyState with
      | none => (.error (capacityError "coldSearchEmptyState"
          "the empty capacity state must have finite occupied bounds."), cache)
      | some emptySpan => (.ok ⟨0, ⟨emptyState, 0,
          emptyState.canonicalOccupiedGeometryKey, emptySpan, noCavities⟩⟩, cache)
  | some seed =>
      match validateWarmPrefixSeed context seed cache with
      | (.error message, cache) => (.error (capacityError "warmPrefixSeed" message), cache)
      | (.ok entry, cache) => (.ok ⟨seed.depth, entry⟩, cache)

def ColdSearchInput.producerRole (input : ColdSearchInput heap) :
    IntrinsicAnytimeProducerRole :=
  match input.warmPrefixSeed with
  | none =>
      if input.retentionMode = some .cohesionFrontierShadow then .capacityCohesionShadow
      else .capacityCold
  | some _ =>
      if input.retentionMode = some .qualityFrontier then .capacityQualityWarmPrefix
      else .capacityWarmPrefix

/-! ## §2  The depth loop -/

/-- The accounts of a lane that starts at a depth: the depths before it have
empty ledgers. -/
def initialAccounts (initialDepth : ℕ) : SearchAccounts where
  settlement := .exhausted
  perDepthBudgetLedgers := (List.range initialDepth).map fun depth => ⟨depth, 0, false⟩
  noSkipFrontier := ⟨true, none⟩

/-- The accounts after one depth.  Ledgers and no-skip state are kept only when
checkpoints are enabled. -/
def SearchAccounts.record (accounts : SearchAccounts) (checkpointEnabled : Bool)
    (ledger : IntrinsicAnytimeDepthBudgetLedger) (beam : List (CapacityEntry heap)) :
    SearchAccounts :=
  let hasNoSkipState := beam.any fun entry => entry.state.unplacedPieceIds.isEmpty
  let settlement :=
    if ledger.quotaExhausted then .evaluationCap else accounts.settlement
  if checkpointEnabled then
    { settlement := settlement
      perDepthBudgetLedgers := accounts.perDepthBudgetLedgers ++ [ledger]
      noSkipFrontier :=
        { present := hasNoSkipState
          firstLossDepth := accounts.noSkipFrontier.firstLossDepth.or
            (if accounts.noSkipFrontier.present && !hasNoSkipState then
              some (ledger.depth + 1) else none) } }
  else { accounts with settlement := settlement }

/-- Where the loop stands: what is saved, and what is accounted for. -/
structure SearchLoop (heap : ℕ → IrregularPlacedPiece F) where
  progress : SearchProgress heap
  accounts : SearchAccounts

inductive LoopOutcome (heap : ℕ → IrregularPlacedPiece F) where
  | finished (loop : SearchLoop heap)
  | paused (nextDepth : ℕ) (loop : SearchLoop heap)

/-- One depth of the loop. -/
def SearchContext.advance (context : SearchContext heap) (checkpointEnabled : Bool)
    (depth : ℕ) (piece : IrregularPreparedPiece F) (loop : SearchLoop heap) :
    Except CapacitySearchError (SearchLoop heap) := do
  let (progress, ledger) ← context.searchDepth depth piece loop.progress
  .ok ⟨progress, loop.accounts.record checkpointEnabled ledger progress.beam⟩

/-- The depth loop: it ends with the pieces or with an empty beam, and pauses
at a boundary before the last depth once the limit is reached. -/
def SearchContext.searchDepths (context : SearchContext heap) (checkpointEnabled : Bool)
    (maximumDepthBoundaries : Option ℕ) :
    List (IrregularPreparedPiece F × ℕ) → ℕ → SearchLoop heap →
      Except CapacitySearchError (LoopOutcome heap)
  | [], _, loop => .ok (.finished loop)
  | (piece, depth) :: depths, completedDepthBoundaries, loop =>
      match context.advance checkpointEnabled depth piece loop with
      | .error error => .error error
      | .ok loop =>
          if loop.progress.beam.isEmpty then .ok (.finished loop)
          else if maximumDepthBoundaries.any (fun maximum =>
                decide (maximum ≤ completedDepthBoundaries + 1)) &&
              decide (depth + 1 < context.input.preparedPieces.length) then
            .ok (.paused (depth + 1) loop)
          else context.searchDepths checkpointEnabled maximumDepthBoundaries depths
            (completedDepthBoundaries + 1) loop

/-- The prepared pieces from a depth on, each with its depth. -/
def ColdSearchInput.depthsFrom (input : ColdSearchInput heap) (startDepth : ℕ) :
    List (IrregularPreparedPiece F × ℕ) := input.preparedPieces.zipIdx.drop startDepth

/-! ## §3  Settlement -/

structure IntrinsicCapacitySearchTrace where
  beamWidth : ℕ
  localLegalPlacementFanout : ℕ
  placementEvaluationCap : ℕ
  placementEvaluationQuotaPerDepth : ℕ
  consumedPlacementEvaluations : ℕ
  auxiliaryPlacementEvaluations : ℕ
  prunedByAttainableCount : ℕ
  prunedByAttainableMaterial : ℕ
  deduplicatedSuccessors : ℕ
  fitRejectedCandidates : ℕ
  invalidCandidates : ℕ
  endpointFitRejections : ℕ
  completedDepths : ℕ
  depthQuotaExhaustions : ℕ
  pieceCount : ℕ
  settlement : IntrinsicCapacitySettlement
  deriving DecidableEq

/-- `make_intrinsic_capacity_search_trace`, less the topology trace. -/
def makeIntrinsicCapacitySearchTrace (input : ColdSearchInput heap)
    (consumedPlacementEvaluations : ℕ) (counters : IntrinsicCapacitySearchCounters)
    (settlement : IntrinsicCapacitySettlement) : IntrinsicCapacitySearchTrace where
  beamWidth := intrinsicCapacityV1Bounds.coldBeamWidth
  localLegalPlacementFanout := intrinsicCapacityV1Bounds.localLegalPlacementFanout
  placementEvaluationCap := input.placementEvaluationCap
  placementEvaluationQuotaPerDepth :=
    intrinsicCapacityV1Bounds.placementEvaluationQuotaPerDepth
  consumedPlacementEvaluations := consumedPlacementEvaluations
  auxiliaryPlacementEvaluations := 0
  prunedByAttainableCount := counters.prunedByAttainableCount
  prunedByAttainableMaterial := counters.prunedByAttainableMaterial
  deduplicatedSuccessors := counters.deduplicatedSuccessors
  fitRejectedCandidates := counters.fitRejectedCandidates
  invalidCandidates := counters.invalidCandidates
  endpointFitRejections := counters.endpointFitRejections
  completedDepths := counters.completedDepths
  depthQuotaExhaustions := counters.depthQuotaExhaustions
  pieceCount := input.preparedPieces.length
  settlement := settlement

def endpointOrigin (role : IntrinsicAnytimeProducerRole) :
    IntrinsicCapacityEndpointOrigin :=
  match role with
  | .capacityWarmPrefix => .warmPrefixContinuation
  | .capacityQualityWarmPrefix => .warmPrefixContinuation
  | _ => .coldSearch

/-- The request as one state ends it: everything not placed is unplaced. -/
def endpointInput (input : ColdSearchInput heap) (role : IntrinsicAnytimeProducerRole)
    (state : CapacityState heap) :
    MaterializeIntrinsicCapacityEndpointInput heap (IrregularPreparedPiece F) where
  sheet := input.sheet
  state := state
  unplacedPreparedIds :=
    input.preparedIds.filter fun id => !state.placementOrder.contains id
  origin := endpointOrigin role
  sourceRole := input.warmPrefixSeed.map fun seed => seed.sourceRole
  prefixDepth := input.warmPrefixSeed.map fun seed => seed.depth
  materialAreasByPieceId := input.materialAreasByPieceId

/-- What the endpoints of a list of states are collected in. -/
structure EndpointCollection (heap : ℕ → IrregularPlacedPiece F) where
  byHash : AList fun _ : String => IntrinsicCapacityEndpoint heap
  rejections : ℕ
  cavityCache : IntrinsicCapacityCavityCache F

/-- Materialize one state, keep the endpoint if it is the best of its hash. -/
def collectEndpoint (subsystems : SearchSubsystems heap) (input : ColdSearchInput heap)
    (role : IntrinsicAnytimeProducerRole) (collection : EndpointCollection heap)
    (state : CapacityState heap) : EndpointCollection heap :=
  match materializeIntrinsicCapacityEndpoint subsystems.toLayoutAuthority
      (endpointInput input role state) collection.cavityCache with
  | (none, cache) => ⟨collection.byHash, collection.rejections + 1, cache⟩
  | (some endpoint, cache) =>
      ⟨insertEndpointByHash subsystems.toLayoutAuthority collection.byHash endpoint,
        collection.rejections, cache⟩

def collectEndpoints (subsystems : SearchSubsystems heap) (input : ColdSearchInput heap)
    (role : IntrinsicAnytimeProducerRole) (states : List (CapacityState heap))
    (cache : IntrinsicCapacityCavityCache F) : EndpointCollection heap :=
  states.foldl (collectEndpoint subsystems input role) ⟨∅, 0, cache⟩

inductive IntrinsicCapacitySearchStatus where
  | paused
  | settled
  deriving DecidableEq

structure IntrinsicCapacitySearchResult (heap : ℕ → IrregularPlacedPiece F) where
  status : IntrinsicCapacitySearchStatus
  endpoints : List (IntrinsicCapacityEndpoint heap)
  trace : IntrinsicCapacitySearchTrace
  checkpoint : Option (IntrinsicAnytimeCheckpoint heap)

/-- The settled result of a finished loop, and the cache. -/
def SearchContext.settle (context : SearchContext heap) (loop : SearchLoop heap) :
    IntrinsicCapacitySearchResult heap × IntrinsicCapacityCavityCache F :=
  let progress := loop.progress
  let collection := collectEndpoints context.subsystems context.input
    context.input.producerRole (progress.beam.map fun entry => entry.state)
    progress.cavityCache
  let counters := { progress.counters with
    endpointFitRejections := progress.counters.endpointFitRejections +
      collection.rejections }
  ({ status := .settled
     endpoints := rankedEndpoints context.subsystems.toLayoutAuthority collection.byHash
     trace := makeIntrinsicCapacitySearchTrace context.input
       progress.consumedPlacementEvaluations counters loop.accounts.settlement
     checkpoint := none }, collection.cavityCache)

/-! ## §4  One call -/

/-- The beam of a checkpoint. -/
def restoreEntry (entry : IntrinsicAnytimeDecisionState heap) : CapacityEntry heap :=
  ⟨entry.state, entry.placedDoubledMaterialAreaGrid2, entry.anchoredOccupiedKey,
    entry.gridSpan, entry.cavities⟩

/-- The loop as a checkpoint restores it.  The settlement is not part of a
checkpoint and starts over as `exhausted`. -/
def restoreLoop (checkpoint : IntrinsicAnytimeCheckpoint heap)
    (cache : IntrinsicCapacityCavityCache F) : SearchLoop heap where
  progress :=
    { beam := checkpoint.frontier.map restoreEntry
      counters := checkpoint.counters
      consumedPlacementEvaluations :=
        checkpoint.budgetLedgers.totalConsumedPlacementEvaluations
      cavityCache := cache }
  accounts :=
    { settlement := .exhausted
      perDepthBudgetLedgers := checkpoint.budgetLedgers.perDepth
      noSkipFrontier := checkpoint.noSkipFrontier }

/-- The loop of a fresh lane. -/
def freshLoop (start : LaneStart heap) (cache : IntrinsicCapacityCavityCache F) :
    SearchLoop heap where
  progress :=
    { beam := [start.entry]
      counters := { completedDepths := start.initialDepth }
      consumedPlacementEvaluations := 0
      cavityCache := cache }
  accounts := initialAccounts start.initialDepth

/-- What changes from call to call, less the cache. -/
structure SearchCall (heap : ℕ → IrregularPlacedPiece F) where
  checkpoint : Option (IntrinsicAnytimeCheckpoint heap)
  maximumDepthBoundaries : Option ℕ

namespace SearchCall

def checkpointEnabled (call : SearchCall heap) : Bool :=
  call.checkpoint.isSome || call.maximumDepthBoundaries.isSome

/-- A trusted checkpoint brings its own fingerprint. -/
def requestFingerprint (call : SearchCall heap) (identities : CheckpointIdentities heap)
    (input : ColdSearchInput heap) : String :=
  match call.checkpoint with
  | some checkpoint =>
      if checkpoint.trustedInternal then checkpoint.requestFingerprint
      else identities.requestFingerprint input
  | none => identities.requestFingerprint input

def trustedChain (call : SearchCall heap) : Bool :=
  call.checkpoint.any fun checkpoint => checkpoint.trustedInternal

/-- Run the depths from where the call starts. -/
def runDepths (call : SearchCall heap) (identities : CheckpointIdentities heap)
    (context : SearchContext heap) (cache : IntrinsicCapacityCavityCache F) :
    Except CapacitySearchError (LoopOutcome heap) :=
  match laneStart context cache with
  | (.error error, _) => .error error
  | (.ok start, cache) =>
      if call.maximumDepthBoundaries.any fun maximum =>
          !isSafeCount maximum || maximum == 0 then
        .error (capacityError "coldSearchCheckpoint"
          "maximumDepthBoundaries must be a positive safe integer.")
      else
        match call.checkpoint with
        | none => context.searchDepths call.checkpointEnabled
            call.maximumDepthBoundaries (context.input.depthsFrom start.initialDepth) 0
            (freshLoop start cache)
        | some checkpoint =>
            match validateIntrinsicCapacityCheckpoint identities context
                (call.requestFingerprint identities context.input)
                context.input.producerRole checkpoint with
            | some message => .error (capacityError "coldSearchCheckpoint" message)
            | none => context.searchDepths call.checkpointEnabled
                call.maximumDepthBoundaries
                (context.input.depthsFrom checkpoint.nextDepth) 0
                (restoreLoop checkpoint cache)

end SearchCall

/-- How a call ended: in which context, and where its loop stood. -/
structure CallOutcome (heap : ℕ → IrregularPlacedPiece F) where
  context : SearchContext heap
  outcome : LoopOutcome heap

def SearchCall.run (call : SearchCall heap) (subsystems : SearchSubsystems heap)
    (identities : CheckpointIdentities heap) (input : ColdSearchInput heap)
    (cache : IntrinsicCapacityCavityCache F) :
    Except CapacitySearchError (CallOutcome heap) := do
  let context ← makeSearchContext subsystems input
  let outcome ← call.runDepths identities context cache
  .ok ⟨context, outcome⟩

/-- The checkpoint of a pause. -/
def SearchCall.makeCheckpoint (call : SearchCall heap)
    (identities : CheckpointIdentities heap) (context : SearchContext heap)
    (nextDepth : ℕ) (loop : SearchLoop heap) : IntrinsicAnytimeCheckpoint heap :=
  makeIntrinsicCapacityCheckpoint identities context call.trustedChain
    (call.requestFingerprint identities context.input) context.input.producerRole
    nextDepth loop.progress loop.accounts

/-- What a call returns, with the cache it gives back. -/
def SearchCall.result (call : SearchCall heap) (identities : CheckpointIdentities heap)
    (ended : CallOutcome heap) :
    IntrinsicCapacitySearchResult heap × IntrinsicCapacityCavityCache F :=
  match ended.outcome with
  | .finished loop => ended.context.settle loop
  | .paused nextDepth loop =>
      ({ status := .paused
         endpoints := []
         trace := makeIntrinsicCapacitySearchTrace ended.context.input
           loop.progress.consumedPlacementEvaluations loop.progress.counters .paused
         checkpoint := some
           (call.makeCheckpoint identities ended.context nextDepth loop) },
        loop.progress.cavityCache)

/-- `run_intrinsic_capacity_cold_search`. -/
def runIntrinsicCapacityColdSearch (subsystems : SearchSubsystems heap)
    (identities : CheckpointIdentities heap) (input : ColdSearchInput heap)
    (call : SearchCall heap) (cache : IntrinsicCapacityCavityCache F) :
    Except CapacitySearchError
      (IntrinsicCapacitySearchResult heap × IntrinsicCapacityCavityCache F) :=
  (call.run subsystems identities input cache).map (call.result identities)

/-- `materialize_intrinsic_capacity_checkpoint_endpoints`: the endpoints of a
paused frontier, everything pending reported as unplaced. -/
def materializeIntrinsicCapacityCheckpointEndpoints (subsystems : SearchSubsystems heap)
    (input : ColdSearchInput heap) (checkpoint : IntrinsicAnytimeCheckpoint heap)
    (cache : IntrinsicCapacityCavityCache F) :
    List (IntrinsicCapacityEndpoint heap) × IntrinsicCapacityCavityCache F :=
  let collection := collectEndpoints subsystems input checkpoint.producerRole
    (checkpoint.frontier.map fun entry => entry.state) cache
  (rankedEndpoints subsystems.toLayoutAuthority collection.byHash, collection.cavityCache)

end PolygonNesting
