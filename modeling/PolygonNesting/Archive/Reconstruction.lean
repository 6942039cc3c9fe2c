import PolygonNesting.Archive.PreparedPieceClass
import PolygonNesting.Search.StrictScoring
import PolygonNesting.Validation.Placement

/-!
# The reconstruction portfolio

From one complete endpoint the portfolio derives orders of the pieces and decodes them one after
another, within a budget of time and of candidate evaluations.  An order that was decoded before
under the same candidate mode is not decoded again.  The completed layouts are kept in an archive
of eight.

A decode is what it asks of the portfolio: checkpoints of the control and batches of candidates to
score.  The answers of the control and the readings of the clock are given by call number.
-/

namespace PolygonNesting

open Binary64

/-! ## §1  Roles and modes -/

inductive IntrinsicReconstructionRole where
  | canonicalGrid
  | legacyAbsoluteEnvelope
  | settledProtected
  | reversedPriority
  | endpointQ0LeftToRight
  | endpointQ0RightToLeft
  | endpointQ90LeftToRight
  | endpointQ90RightToLeft
  | openPocketFirst
  | reversedPriorityOpenPocketFirst
  | endpointQ0LeftToRightOpenPocketFirst
  | endpointQ0RightToLeftOpenPocketFirst
  | endpointQ90LeftToRightOpenPocketFirst
  | endpointQ90RightToLeftOpenPocketFirst
  deriving DecidableEq

inductive IntrinsicReconstructionRoleFamily where
  | all
  | pureGrowth
  | gapContained
  | endpointQ90RightToLeft

inductive IntrinsicReconstructionSeedRole where
  | canonicalGrid
  | legacyAbsoluteEnvelope
  | settledProtected
  deriving DecidableEq

def IntrinsicReconstructionSeedRole.toRole :
    IntrinsicReconstructionSeedRole → IntrinsicReconstructionRole
  | .canonicalGrid => .canonicalGrid
  | .legacyAbsoluteEnvelope => .legacyAbsoluteEnvelope
  | .settledProtected => .settledProtected

inductive IntrinsicStrictComparatorMode where
  | pureGrowth
  | legacyAbsoluteEnvelope
  | contactBand
  deriving DecidableEq

inductive IntrinsicStrictCandidateMode where
  | comparator (mode : IntrinsicStrictComparatorMode)
  | gapContained
  deriving DecidableEq

def candidateModeKey : IntrinsicStrictCandidateMode → String
  | .comparator .pureGrowth => "pure-growth"
  | .comparator .legacyAbsoluteEnvelope => "legacy-absolute-envelope"
  | .comparator .contactBand => "contact-band"
  | .gapContained => "gap-contained"

/-! ## §2  Seeds, runs and orders -/

structure IntrinsicStrictStepTrace (F : Type) where
  pieceId : PieceId
  candidateCount : Number
  transformFamilyCount : Number
  selectedTransformFamily : Option String
  selectedScore : Option (IntrinsicStrictLocalScore F)

structure IntrinsicStrictGapFillEvidence (F : Type) where
  pieceId : PieceId
  regionKey : String
  regionAreaBeforeMm2 : F
  regionAreaAfterMm2 : F
  envelopeMaximumSideDeltaMm : F
  envelopeAreaDeltaMm2 : F
  sharedBoundaryLengthMm : F
  nonInert : Bool

structure IntrinsicReconstructionSeed (F : Type) where
  role : IntrinsicReconstructionSeedRole
  canonicalGeometryHash : String
  placedCollisionGeometries : List (IrregularPlacedPiece F)
  stepTrace : List (IntrinsicStrictStepTrace F)
  metrics : IntrinsicStrictCompletedMetrics F

inductive IntrinsicReconstructionRunStatus where
  | completed
  | deadline
  | evaluationCap
  | duplicateOrder
  | incomplete
  deriving DecidableEq

structure IntrinsicReconstructionRun (F : Type) where
  role : IntrinsicReconstructionRole
  sourceEndpointHash : Option String
  candidateMode : IntrinsicStrictCandidateMode
  pieceIds : List PieceId
  effectiveOrderKey : String
  status : IntrinsicReconstructionRunStatus
  duplicateOf : Option IntrinsicReconstructionRole
  requestedCandidateEvaluations : Option Number
  consumedCandidateEvaluations : Option Number
  placedCollisionGeometries : List (IrregularPlacedPiece F)
  stepTrace : List (IntrinsicStrictStepTrace F)
  gapFillEvidence : List (IntrinsicStrictGapFillEvidence F)
  metrics : Option (IntrinsicStrictCompletedMetrics F)
  runtimeMs : F

/-- A run with its metrics. -/
structure IntrinsicReconstructionArchiveRun (F : Type) where
  run : IntrinsicReconstructionRun F
  metrics : IntrinsicStrictCompletedMetrics F

structure DecodeSpec where
  role : IntrinsicReconstructionRole
  sourceEndpointHash : Option String
  candidateMode : IntrinsicStrictCandidateMode
  pieces : List MirrorablePiece

variable {F : Type} [LinearOrder F] [Zero F] [One F] [Add F] [Sub F] [Neg F] [Mul F] [Div F]
  [JsMath F]

structure CanonicalEndpointOrder where
  role : IntrinsicReconstructionRole
  pieces : List MirrorablePiece

/-- Twice the centre of the box of a path. -/
def doubledCentre : CanonicalGridPath → Option (Number × Number)
  | [] => none
  | first :: rest =>
      let minX := rest.foldl (fun least point => min least point.x) first.x
      let minY := rest.foldl (fun least point => min least point.y) first.y
      let maxX := rest.foldl (fun greatest point => max greatest point.x) first.x
      let maxY := rest.foldl (fun greatest point => max greatest point.y) first.y
      some ((Number.ofInt minX).add (.ofInt maxX), (Number.ofInt minY).add (.ofInt maxY))

/-- The positions of the placed pieces with a grid path; a later piece of the same id replaces
an earlier one. -/
def endpointPositions (placed : List (IrregularPlacedPiece F)) :
    PieceId → Option (Number × Number) :=
  placed.foldl
    (fun positions (placement : IrregularPlacedPiece F) =>
      match (placedCollisionWorldGridPath placement).bind doubledCentre with
      | none => positions
      | some position =>
          Function.update positions placement.placement.preparedId (some position))
    fun _ => none

/-- By the primary coordinate, then by y, x and id; by id where a position is missing. -/
def compareEndpointPieces (positions : PieceId → Option (Number × Number))
    (primaryOf : Number → Number → Number) (first second : MirrorablePiece) : Ordering :=
  match positions first.preparedPieceId, positions second.preparedPieceId with
  | some (firstX, firstY), some (secondX, secondY) =>
      (((primaryOf firstX firstY).partialCmp (primaryOf secondX secondY)).getD .eq).then <|
      ((firstY.partialCmp secondY).getD .eq).then <|
      ((firstX.partialCmp secondX).getD .eq).then <|
        localeCompareKeys first.preparedPieceId second.preparedPieceId
  | _, _ => localeCompareKeys first.preparedPieceId second.preparedPieceId

def buildCanonicalEndpointOrders (pieces : List MirrorablePiece)
    (placed : List (IrregularPlacedPiece F)) : List CanonicalEndpointOrder :=
  let positions := endpointPositions placed
  let order (primaryOf : Number → Number → Number) : List MirrorablePiece :=
    pieces.mergeSort fun first second =>
      compareEndpointPieces positions primaryOf first second != .gt
  [⟨.endpointQ0LeftToRight, order fun doubledX _ => doubledX⟩,
    ⟨.endpointQ0RightToLeft, order fun doubledX _ => (Number.ofInt 0).sub doubledX⟩,
    ⟨.endpointQ90LeftToRight, order fun _ doubledY => (Number.ofInt 0).sub doubledY⟩,
    ⟨.endpointQ90RightToLeft, order fun _ doubledY => doubledY⟩]

def openPocketFirstRole : IntrinsicReconstructionRole → IntrinsicReconstructionRole
  | .endpointQ0LeftToRight => .endpointQ0LeftToRightOpenPocketFirst
  | .endpointQ0RightToLeft => .endpointQ0RightToLeftOpenPocketFirst
  | .endpointQ90LeftToRight => .endpointQ90LeftToRightOpenPocketFirst
  | .endpointQ90RightToLeft => .endpointQ90RightToLeftOpenPocketFirst
  | other => other

def buildIntrinsicReconstructionSpecs (pieces : List MirrorablePiece)
    (endpoint : IntrinsicReconstructionSeed F) : List DecodeSpec :=
  let endpointOrders := buildCanonicalEndpointOrders pieces endpoint.placedCollisionGeometries
  [⟨.reversedPriority, none, .comparator .pureGrowth, pieces.reverse⟩] ++
    endpointOrders.map (fun order =>
      ⟨order.role, some endpoint.canonicalGeometryHash, .comparator .pureGrowth, order.pieces⟩) ++
    [⟨.openPocketFirst, none, .gapContained, pieces⟩,
      ⟨.reversedPriorityOpenPocketFirst, none, .gapContained, pieces.reverse⟩] ++
    endpointOrders.map fun order =>
      ⟨openPocketFirstRole order.role, some endpoint.canonicalGeometryHash, .gapContained,
        order.pieces⟩

def intrinsicReconstructionSpecMatchesFamily (spec : DecodeSpec) :
    IntrinsicReconstructionRoleFamily → Bool
  | .all => true
  | .endpointQ90RightToLeft => spec.role = .endpointQ90RightToLeft
  | .gapContained => spec.candidateMode = .gapContained
  | .pureGrowth => spec.candidateMode ≠ .gapContained

/-! ## §3  The archive -/

def intrinsicReconstructionArchiveCapacity : ℤ := 8

/-- The completed runs that have metrics. -/
def completeRuns (runs : List (IntrinsicReconstructionRun F)) :
    List (IntrinsicReconstructionArchiveRun F) :=
  runs.filterMap fun run =>
    if run.status = .completed then run.metrics.map fun metrics => ⟨run, metrics⟩ else none

def IntrinsicReconstructionArchiveRun.hash (entry : IntrinsicReconstructionArchiveRun F) : String :=
  entry.metrics.canonicalGeometryHash

/-- A run is kept unless an earlier one has its hash. -/
def insertUnique (unique : List (IntrinsicReconstructionArchiveRun F))
    (entry : IntrinsicReconstructionArchiveRun F) : List (IntrinsicReconstructionArchiveRun F) :=
  if unique.any fun kept => kept.hash == entry.hash then unique else unique ++ [entry]

def uniqueRuns (runs : List (IntrinsicReconstructionRun F)) :
    List (IntrinsicReconstructionArchiveRun F) :=
  (completeRuns runs).foldl insertUnique []

/-- The front of the unique runs, each found again by its hash. -/
def rankedRuns (unique : List (IntrinsicReconstructionArchiveRun F)) :
    List (IntrinsicReconstructionArchiveRun F) :=
  (selectIntrinsicStrictCompletedParetoFront (unique.map fun entry => entry.metrics)).filterMap
    fun metrics => unique.find? fun entry => entry.hash == metrics.canonicalGeometryHash

/-- The protected roles; a settled endpoint has none of them. -/
def isProtectedSeed (entry : IntrinsicReconstructionArchiveRun F) : Bool :=
  entry.run.role = .canonicalGrid || entry.run.role = .legacyAbsoluteEnvelope

/-- `append`: below the capacity, unless its hash is there. -/
def appendSelected (boundedCapacity : ℕ) (selected : List (IntrinsicReconstructionArchiveRun F))
    (entry : IntrinsicReconstructionArchiveRun F) : List (IntrinsicReconstructionArchiveRun F) :=
  if selected.length < boundedCapacity && !selected.any fun kept => kept.hash == entry.hash then
    selected ++ [entry]
  else selected

def retainIntrinsicReconstructionArchive (runs : List (IntrinsicReconstructionRun F))
    (capacity : ℤ) : List (IntrinsicReconstructionArchiveRun F) :=
  let unique := uniqueRuns runs
  let ranked := rankedRuns unique
  let boundedCapacity := (max capacity 0).toNat
  (ranked.head?.toList ++ unique.filter isProtectedSeed ++ ranked).foldl
    (appendSelected boundedCapacity) []

/-! ## §4  Runs without a decode -/

/-- The mode of the run of a seed. -/
def seedCandidateMode : IntrinsicReconstructionSeedRole → IntrinsicStrictCandidateMode
  | .canonicalGrid => .comparator .pureGrowth
  | .legacyAbsoluteEnvelope => .comparator .legacyAbsoluteEnvelope
  | .settledProtected => .comparator .pureGrowth

section Runs

variable (text : Number → String)

def baselineSeedRuns (seeds : List (IntrinsicReconstructionSeed F))
    (pieces : List MirrorablePiece) : List (IntrinsicReconstructionRun F) :=
  seeds.map fun seed => {
    role := seed.role.toRole
    sourceEndpointHash := none
    candidateMode := seedCandidateMode seed.role
    pieceIds := pieces.map (·.preparedPieceId)
    effectiveOrderKey := intrinsicReconstructionEffectiveOrderKey text pieces
    status := .completed
    duplicateOf := none
    requestedCandidateEvaluations := some (.ofInt 0)
    consumedCandidateEvaluations := some (.ofInt 0)
    placedCollisionGeometries := seed.placedCollisionGeometries
    stepTrace := seed.stepTrace
    gapFillEvidence := []
    metrics := some seed.metrics
    runtimeMs := seed.metrics.runtimeMs }

def selectReconstructionEndpoint (seeds : List (IntrinsicReconstructionSeed F)) :
    Option (IntrinsicReconstructionSeed F) := do
  let winner ← (rankIntrinsicStrictCompletedLayouts (seeds.map fun seed => seed.metrics)).head?
  seeds.find? fun seed => seed.canonicalGeometryHash == winner.canonicalGeometryHash

def deadlineRun (spec : DecodeSpec) (requestedCandidateEvaluations : Option Number) :
    IntrinsicReconstructionRun F where
  role := spec.role
  sourceEndpointHash := spec.sourceEndpointHash
  candidateMode := spec.candidateMode
  pieceIds := spec.pieces.map (·.preparedPieceId)
  effectiveOrderKey := intrinsicReconstructionEffectiveOrderKey text spec.pieces
  status := .deadline
  duplicateOf := none
  requestedCandidateEvaluations := requestedCandidateEvaluations
  consumedCandidateEvaluations := none
  placedCollisionGeometries := []
  stepTrace := []
  gapFillEvidence := []
  metrics := none
  runtimeMs := 0

def evaluationCapRun (spec : DecodeSpec) : IntrinsicReconstructionRun F :=
  { deadlineRun text spec none with status := .evaluationCap }

/-- The run of an order that has an owner. -/
def duplicateOrderRun (spec : DecodeSpec) (duplicateOf : IntrinsicReconstructionRole) :
    IntrinsicReconstructionRun F :=
  { deadlineRun text spec (some (.ofInt 0)) with
    status := .duplicateOrder
    duplicateOf := some duplicateOf
    consumedCandidateEvaluations := some (.ofInt 0) }

end Runs

/-! ## §5  One decode -/

structure IntrinsicStrictDecoderError where
  operation : String
  message : String
  deriving DecidableEq

inductive IntrinsicStrictDecoderFailure where
  | decoder (error : IntrinsicStrictDecoderError)
  | geometry (error : IrregularGeometryInputError)
  | abort (error : NfpIfpControlAbortError)
  deriving DecidableEq

structure IntrinsicSheetlessCompletedLayout (F : Type) where
  placedCollisionGeometries : List (IrregularPlacedPiece F)
  canonicalGeometryIdentity : String
  canonicalGeometryHash : String
  metrics : IntrinsicStrictCompletedMetrics F

/-- What a call of `construct_intrinsic_strict_state` is given beyond constants. -/
structure ConstructIntrinsicStrictStateInput (F : Type) where
  allPreparedPieces : List MirrorablePiece
  candidateMode : IntrinsicStrictCandidateMode
  maximumRuntimeMs : F
  maximumCandidateEvaluationCount : Option Number

/-- The state a decode reaches, with its traces and what measuring it at a runtime gives. -/
structure DecodedState (F : Type) where
  stepTrace : List (IntrinsicStrictStepTrace F)
  gapFillEvidence : List (IntrinsicStrictGapFillEvidence F)
  measured : F → Option (IntrinsicSheetlessCompletedLayout F)

/-- A decode: the checkpoints it makes and the batches it scores, each with the state to return
should the cap end it there. -/
inductive Decode (F : Type) where
  | checkpoint (next : Decode F)
  | score (legalCandidateCount : ℕ) (reached : DecodedState F) (next : Decode F)
  | decoderFailure (error : IntrinsicStrictDecoderError)
  | geometryFailure (error : IrregularGeometryInputError)
  | finish (reached : DecodedState F)

/-- What the portfolio reads from outside: the clock and the control by call number, and the
decodes by the number of the call. -/
structure PortfolioWorld (F : Type) where
  timingNow : ℕ → F
  control : Option (ℕ → Except NfpIfpControlAbortError Unit)
  decoder : ℕ → ConstructIntrinsicStrictStateInput F → Decode F
  /-- A number as the text of a message has it. -/
  display : F → String

/-- `ReconstructionControl`, with the checkpoints it has passed on and the readings of the
clock. -/
structure ReconstructionControl where
  checkpoints : ℕ
  externalAbortReason : Option NfpIfpAbortReason
  clockReadings : ℕ

structure IntrinsicStrictConstructResult (F : Type) where
  state : DecodedState F
  candidateEvaluationCount : Number
  truncationReason : Option TruncationReason
  runtimeMs : F

section Decoding

variable (world : PortfolioWorld F)

/-- A reading of the clock. -/
def ReconstructionControl.timingNow (control : ReconstructionControl) : ReconstructionControl × F :=
  ({ control with clockReadings := control.clockReadings + 1 },
    world.timingNow control.clockReadings)

/-- The checkpoint of the caller's control, whose abort is recorded. -/
def ReconstructionControl.checkpoint (control : ReconstructionControl) :
    ReconstructionControl × Except NfpIfpControlAbortError Unit :=
  match world.control with
  | none => (control, .ok ())
  | some answer =>
      match answer control.checkpoints with
      | .ok () => ({ control with checkpoints := control.checkpoints + 1 }, .ok ())
      | .error abort =>
          ({ control with
              checkpoints := control.checkpoints + 1
              externalAbortReason := some abort.reason }, .error abort)

/-- The checkpoint of a decode: the caller's control first, then the deadline of the decode. -/
def deadlineCheckpoint (startedAt maximumRuntimeMs : F) (control : ReconstructionControl) :
    ReconstructionControl × Except NfpIfpControlAbortError Unit :=
  match control.checkpoint world with
  | (control, .error abort) => (control, .error abort)
  | (control, .ok ()) =>
      let (control, now) := control.timingNow world
      if 0 + now - startedAt ≥ maximumRuntimeMs then
        (control, .error ⟨.deadline,
          "intrinsic strict decode exceeded " ++ world.display maximumRuntimeMs ++ " ms."⟩)
      else (control, .ok ())

/-- The serial loop over a batch, on the count: whether the cap ended it. -/
def evaluateSerially (limits : ScoringLimits) : ℕ → Number → Number × Bool
  | 0, count => (count, false)
  | remaining + 1, count =>
      if limits.reached count then (count, true)
      else evaluateSerially limits remaining
        (if limits.captureCandidateEvaluationCount then count.add (.ofInt 1) else count)

/-- The decode with its control, from a count of evaluations on. -/
def runDecode (limits : ScoringLimits) (startedAt maximumRuntimeMs : F) :
    Decode F → ReconstructionControl → Number →
      ReconstructionControl ×
        Except IntrinsicStrictDecoderFailure (IntrinsicStrictConstructResult F)
  | .checkpoint next, control, count =>
      match deadlineCheckpoint world startedAt maximumRuntimeMs control with
      | (control, .error abort) => (control, .error (.abort abort))
      | (control, .ok ()) => runDecode limits startedAt maximumRuntimeMs next control count
  | .score legalCandidateCount reached next, control, count =>
      match evaluateSerially limits legalCandidateCount count with
      | (count, true) =>
          let (control, now) := control.timingNow world
          (control, .ok ⟨reached, count, some .maximumCandidateEvaluations,
            0 + max 0 (now - startedAt)⟩)
      | (count, false) => runDecode limits startedAt maximumRuntimeMs next control count
  | .decoderFailure error, control, _ => (control, .error (.decoder error))
  | .geometryFailure error, control, _ => (control, .error (.geometry error))
  | .finish reached, control, count =>
      let (control, now) := control.timingNow world
      (control, .ok ⟨reached, count, none, 0 + max 0 (now - startedAt)⟩)

/-- `construct_intrinsic_strict_state`; an injected clock makes the scoring serial. -/
def constructIntrinsicStrictState (call : ℕ) (input : ConstructIntrinsicStrictStateInput F)
    (control : ReconstructionControl) :
    ReconstructionControl ×
      Except IntrinsicStrictDecoderFailure (IntrinsicStrictConstructResult F) :=
  let (control, startedAt) := control.timingNow world
  runDecode world (scoringLimits input.maximumCandidateEvaluationCount true false) startedAt
    input.maximumRuntimeMs (world.decoder call input) control (.ofInt 0)

end Decoding

/-! ## §6  The portfolio -/

inductive IntrinsicReconstructionPortfolioOperation where
  | seed
  | order
  | archive
  deriving DecidableEq

structure IntrinsicReconstructionPortfolioError where
  operation : IntrinsicReconstructionPortfolioOperation
  message : String
  deriving DecidableEq

inductive IntrinsicReconstructionPortfolioFailure where
  | portfolio (error : IntrinsicReconstructionPortfolioError)
  | strict (failure : IntrinsicStrictDecoderFailure)
  deriving DecidableEq

structure RunIntrinsicReconstructionPortfolioInput (F : Type) where
  allPreparedPieces : List MirrorablePiece
  baselineSeeds : List (IntrinsicReconstructionSeed F)
  maximumRuntimeMsPerDecode : Option F
  maximumTotalRuntimeMs : Option F
  roleFamily : Option IntrinsicReconstructionRoleFamily
  maximumCandidateEvaluationsPerDecode : Option Number
  maximumTotalCandidateEvaluations : Option Number

structure IntrinsicReconstructionPortfolioResult (F : Type) where
  runs : List (IntrinsicReconstructionRun F)
  archive : List (IntrinsicReconstructionArchiveRun F)
  winner : Option (IntrinsicReconstructionArchiveRun F)
  runtimeMs : F
  consumedCandidateEvaluations : Number
  candidateEvaluationAccountingComplete : Bool

/-- A call of the decoder, with the evaluations consumed before it. -/
structure DecodeCall (F : Type) where
  input : ConstructIntrinsicStrictStateInput F
  consumedBefore : Number

/-- The variables of the loop, the control it shares with the decoder and the calls it has made. -/
structure PortfolioState (F : Type) where
  runs : List (IntrinsicReconstructionRun F)
  orderOwners : String → Option IntrinsicReconstructionRole
  consumedCandidateEvaluations : Number
  candidateEvaluationAccountingComplete : Bool
  control : ReconstructionControl
  decodes : List (DecodeCall F)

section Portfolio

variable (text : Number → String) (world : PortfolioWorld F)
  (input : RunIntrinsicReconstructionPortfolioInput F)

def ownerKey (mode : IntrinsicStrictCandidateMode) (pieces : List MirrorablePiece) : String :=
  candidateModeKey mode ++ ":" ++ intrinsicReconstructionEffectiveOrderKey text pieces

def PortfolioState.pushRun (state : PortfolioState F) (run : IntrinsicReconstructionRun F) :
    PortfolioState F :=
  { state with runs := state.runs ++ [run] }

def PortfolioState.timingNow (state : PortfolioState F) : PortfolioState F × F :=
  let (control, now) := state.control.timingNow world
  ({ state with control := control }, now)

def requestedCandidateEvaluations (maximumPerDecode remaining : Option Number) : Option Number :=
  match maximumPerDecode, remaining with
  | none, remaining => remaining
  | some perDecode, none => some perDecode
  | some perDecode, some remaining => some (perDecode.min remaining)

/-- The run of a decode that ended within the cap. -/
def decodedRun (spec : DecodeSpec) (requested : Option Number)
    (constructed : IntrinsicStrictConstructResult F) (runtimeMs : F) :
    IntrinsicReconstructionRun F :=
  let measured := constructed.state.measured constructed.runtimeMs
  { role := spec.role
    sourceEndpointHash := spec.sourceEndpointHash
    candidateMode := spec.candidateMode
    pieceIds := spec.pieces.map (·.preparedPieceId)
    effectiveOrderKey := intrinsicReconstructionEffectiveOrderKey text spec.pieces
    status := if measured.isNone then .incomplete else .completed
    duplicateOf := none
    requestedCandidateEvaluations := requested
    consumedCandidateEvaluations := some constructed.candidateEvaluationCount
    placedCollisionGeometries :=
      (measured.map fun layout => layout.placedCollisionGeometries).getD []
    stepTrace := constructed.state.stepTrace
    gapFillEvidence := constructed.state.gapFillEvidence
    metrics := measured.map fun layout => layout.metrics
    runtimeMs := runtimeMs }

/-- What the loop does with the result of a decode. -/
def settleDecode (spec : DecodeSpec) (requested : Option Number) (decodeStartedAt : F)
    (state : PortfolioState F) :
    Except IntrinsicStrictDecoderFailure (IntrinsicStrictConstructResult F) →
      PortfolioState F × Except IntrinsicReconstructionPortfolioFailure Unit
  | .error (.abort abort) =>
      if state.control.externalAbortReason = some abort.reason then
        (state, .error (.strict (.abort abort)))
      else
        let (state, now) := state.timingNow world
        let run := { deadlineRun text spec requested with runtimeMs := now - decodeStartedAt }
        ({ state with candidateEvaluationAccountingComplete := false }.pushRun run, .ok ())
  | .error other => (state, .error (.strict other))
  | .ok constructed =>
      let consumedByDecode := constructed.candidateEvaluationCount
      let state := { state with
        consumedCandidateEvaluations := state.consumedCandidateEvaluations.add consumedByDecode }
      let (state, now) := state.timingNow world
      if constructed.truncationReason = some .maximumCandidateEvaluations then
        let run := { evaluationCapRun text spec with
          requestedCandidateEvaluations := requested
          consumedCandidateEvaluations := some consumedByDecode
          runtimeMs := now - decodeStartedAt }
        (state.pushRun run, .ok ())
      else
        (state.pushRun (decodedRun text spec requested constructed (now - decodeStartedAt)), .ok ())

/-- The decode of an order within the budgets. -/
def decodeOrder (spec : DecodeSpec) (remainingTotalMs : F) (remaining : Option Number)
    (state : PortfolioState F) :
    PortfolioState F × Except IntrinsicReconstructionPortfolioFailure Unit :=
  let requested :=
    requestedCandidateEvaluations input.maximumCandidateEvaluationsPerDecode remaining
  let (state, decodeStartedAt) := state.timingNow world
  let call : ConstructIntrinsicStrictStateInput F := {
    allPreparedPieces := spec.pieces
    candidateMode := spec.candidateMode
    maximumRuntimeMs :=
      min (input.maximumRuntimeMsPerDecode.getD (JsNumber.ofNat 120000)) remainingTotalMs
    maximumCandidateEvaluationCount := requested }
  let (control, constructed) :=
    constructIntrinsicStrictState world state.decodes.length call state.control
  let state := { state with
    control := control
    decodes := state.decodes ++ [⟨call, state.consumedCandidateEvaluations⟩] }
  settleDecode text world spec requested decodeStartedAt state constructed

/-- One turn of the loop over the specs. -/
def portfolioStep (startedAt : F) (spec : DecodeSpec) (state : PortfolioState F) :
    PortfolioState F × Except IntrinsicReconstructionPortfolioFailure Unit :=
  let key := ownerKey text spec.candidateMode spec.pieces
  match state.orderOwners key with
  | some duplicateOf => (state.pushRun (duplicateOrderRun text spec duplicateOf), .ok ())
  | none =>
      let state := { state with
        orderOwners := Function.update state.orderOwners key (some spec.role) }
      let (state, now) := state.timingNow world
      let remainingTotalMs :=
        input.maximumTotalRuntimeMs.getD (JsNumber.ofNat 300000) - (now - startedAt)
      if remainingTotalMs ≤ 0 then
        ({ state with candidateEvaluationAccountingComplete := false }.pushRun
          (deadlineRun text spec none), .ok ())
      else
        let remaining := input.maximumTotalCandidateEvaluations.map fun maximum =>
          maximum.sub state.consumedCandidateEvaluations
        if remaining.any fun remaining => remaining.le (.ofInt 0) then
          (state.pushRun (evaluationCapRun text spec), .ok ())
        else decodeOrder text world input spec remainingTotalMs remaining state

/-- The loop, up to the first failure. -/
def portfolioLoop (startedAt : F) : List DecodeSpec → PortfolioState F →
    PortfolioState F × Except IntrinsicReconstructionPortfolioFailure Unit
  | [], state => (state, .ok ())
  | spec :: specs, state =>
      match portfolioStep text world input startedAt spec state with
      | (state, .error failure) => (state, .error failure)
      | (state, .ok ()) => portfolioLoop startedAt specs state

/-- The owners before the loop: a later seed of a mode replaces an earlier one. -/
def seedOwners (seedRuns : List (IntrinsicReconstructionRun F)) :
    String → Option IntrinsicReconstructionRole :=
  seedRuns.foldl
    (fun owners run => Function.update owners
      (ownerKey text run.candidateMode input.allPreparedPieces) (some run.role))
    fun _ => none

/-- The variables before the loop; the clock was read once. -/
def portfolioStart : PortfolioState F :=
  let seedRuns := baselineSeedRuns text input.baselineSeeds input.allPreparedPieces
  { runs := seedRuns
    orderOwners := seedOwners text input seedRuns
    consumedCandidateEvaluations := .ofInt 0
    candidateEvaluationAccountingComplete := true
    control := ⟨0, none, 1⟩
    decodes := [] }

def portfolioSpecs (endpoint : IntrinsicReconstructionSeed F) : List DecodeSpec :=
  (buildIntrinsicReconstructionSpecs input.allPreparedPieces endpoint).filter fun spec =>
    intrinsicReconstructionSpecMatchesFamily spec (input.roleFamily.getD .all)

/-- The result of a loop that ended. -/
def portfolioResult (state : PortfolioState F) (runtimeMs : F) :
    IntrinsicReconstructionPortfolioResult F :=
  let archive := retainIntrinsicReconstructionArchive state.runs
    intrinsicReconstructionArchiveCapacity
  { runs := state.runs
    archive := archive
    winner := archive.head?
    runtimeMs := runtimeMs
    consumedCandidateEvaluations := state.consumedCandidateEvaluations
    candidateEvaluationAccountingComplete := state.candidateEvaluationAccountingComplete }

/-- `run_intrinsic_reconstruction_portfolio`, with the variables as it leaves them. -/
def runIntrinsicReconstructionPortfolio :
    PortfolioState F × Except IntrinsicReconstructionPortfolioFailure
      (IntrinsicReconstructionPortfolioResult F) :=
  let startedAt := world.timingNow 0
  let start := portfolioStart text input
  match selectReconstructionEndpoint input.baselineSeeds with
  | none => (start, .error (.portfolio ⟨.seed,
      "the reconstruction portfolio requires one complete exact baseline endpoint."⟩))
  | some endpoint =>
      match portfolioLoop text world input startedAt (portfolioSpecs input endpoint) start with
      | (state, .error failure) => (state, .error failure)
      | (state, .ok ()) =>
          let (state, now) := state.timingNow world
          (state, .ok (portfolioResult state (now - startedAt)))

end Portfolio

end PolygonNesting
