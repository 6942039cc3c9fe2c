import PolygonNesting.ShortSide.ContactStrip
import PolygonNesting.Validation.Placement

/-!
# Construction of a contact strip

The loop over the pieces.  A piece without a candidate sends the contact-first policy back
to its last decision that went against the baseline: prefix, index and position are
restored and the baseline is placed instead.

Candidates come from a generator, which is a parameter, with the control it is given.
Every return with a failed outcome is an exit of the loop.
-/

namespace PolygonNesting.ContactStrip

variable {F : Type} [LinearOrder F] [Zero F] [One F] [Add F] [Sub F] [Neg F]
  [Mul F] [Div F] [JsMath F] {heap : ℕ → IrregularPlacedPiece F}

/-! ## §1  Outcomes -/

structure StripCounters where
  transformEvaluations : ℕ
  candidateEvaluations : ℕ
  placedCount : ℕ
  backtrackCount : ℕ
  reusedPrefixPlacements : ℕ
  deriving DecidableEq

/-- The places where a strip is given up. -/
inductive StripFailure where
  | beforePiece (bounded : BoundedStatus) (placed : ℕ)
  | afterGeneration (bounded : BoundedStatus)
  | evaluations (count : ℕ)
  | duringAnchors (bounded : BoundedStatus) (count : ℕ)
  | duringSelection (bounded : BoundedStatus)
  | backtracks (count : ℕ)
  | noLegalPlacement (pieceId : PieceId)
  | afterCompletion (bounded : BoundedStatus) (placed : ℕ)
  deriving DecidableEq

namespace StripFailure

def status : StripFailure → IntrinsicShortSideContactStripStatus
  | beforePiece bounded _ => bounded.toStatus
  | afterGeneration bounded => bounded.toStatus
  | evaluations _ => .evaluationCap
  | duringAnchors bounded _ => bounded.toStatus
  | duringSelection bounded => bounded.toStatus
  | backtracks _ => .evaluationCap
  | noLegalPlacement _ => .noLegalPlacement
  | afterCompletion bounded _ => bounded.toStatus

def reason : StripFailure → String
  | beforePiece bounded placed =>
      bounded.asStr ++ " reached after " ++ toString placed ++ " contact placements."
  | afterGeneration bounded => bounded.asStr ++ " reached after contact candidate generation."
  | evaluations count =>
      "evaluation-cap reached after " ++ toString count ++ " contact candidate anchors."
  | duringAnchors bounded count =>
      bounded.asStr ++ " reached after " ++ toString count ++ " contact candidate anchors."
  | duringSelection bounded =>
      bounded.asStr ++ " reached during contact-aware tie selection."
  | backtracks count =>
      "backtrack cap reached after " ++ toString count ++ " resumable contact decisions."
  | noLegalPlacement pieceId => "piece " ++ pieceId ++
      " has no legal contact placement inside the requested short-axis strip."
  | afterCompletion bounded placed =>
      bounded.asStr ++ " reached after completing " ++ toString placed ++
        " contact placements."

/-- The status of the clock or the memory behind a failure. -/
def bounded : StripFailure → Option BoundedStatus
  | beforePiece bounded _ => some bounded
  | afterGeneration bounded => some bounded
  | duringAnchors bounded _ => some bounded
  | duringSelection bounded => some bounded
  | afterCompletion bounded _ => some bounded
  | evaluations _ => none
  | backtracks _ => none
  | noLegalPlacement _ => none

end StripFailure

structure IntrinsicShortSideContactStripTrace (F : Type) where
  version : String
  status : IntrinsicShortSideContactStripStatus
  executionModel : String
  selectionPolicy : IntrinsicShortSideContactStripSelectionPolicy
  orderPolicy : IntrinsicShortSideContactStripOrderPolicy
  stripShortAxisMm : F
  stripLongAxisMm : F
  transformEvaluations : ℕ
  candidateEvaluations : ℕ
  backtrackCount : ℕ
  reusedPrefixPlacements : ℕ
  placedCount : ℕ
  requestedCount : ℕ
  failureReason : Option String

structure IntrinsicShortSideContactStripOutcome (heap : ℕ → IrregularPlacedPiece F) where
  trace : IntrinsicShortSideContactStripTrace F
  placedCollisionGeometries : Option (List (PlacedArc heap))

/-- Limits on counts are whole or infinite; `none` is infinite. -/
structure ConstructStripInput (F : Type) where
  stripSheet : SheetSpec F
  preparedPieces : List (IrregularPreparedPiece F)
  selectionPolicy : IntrinsicShortSideContactStripSelectionPolicy
  orderPolicy : IntrinsicShortSideContactStripOrderPolicy
  maximumCandidateEvaluations : Option ℕ
  maximumBacktracks : Option ℕ

def stripTrace (input : ConstructStripInput F)
    (status : IntrinsicShortSideContactStripStatus) (counters : StripCounters)
    (placedCount : ℕ) (failureReason : Option String) :
    IntrinsicShortSideContactStripTrace F where
  version := "intrinsic-short-side-contact-strip-v3"
  status := status
  executionModel := "single-process-sequential"
  selectionPolicy := input.selectionPolicy
  orderPolicy := input.orderPolicy
  stripShortAxisMm := input.stripSheet.width
  stripLongAxisMm := input.stripSheet.height
  transformEvaluations := counters.transformEvaluations
  candidateEvaluations := counters.candidateEvaluations
  backtrackCount := counters.backtrackCount
  reusedPrefixPlacements := counters.reusedPrefixPlacements
  placedCount := placedCount
  requestedCount := input.preparedPieces.length
  failureReason := failureReason

def failedOutcome (input : ConstructStripInput F) (failure : StripFailure)
    (counters : StripCounters) (placedCount : ℕ) :
    IntrinsicShortSideContactStripOutcome heap where
  trace := stripTrace input failure.status counters placedCount (some failure.reason)
  placedCollisionGeometries := none

inductive NfpIfpError where
  | geometry (error : IrregularGeometryInputError)
  | abort (error : NfpIfpControlAbortError)
  deriving DecidableEq

inductive NfpIfpCheckpointPhase where
  | ifp
  | placedNfp
  | ifpBoundaryIntersection
  | pairwiseNfpBoundaryIntersection
  | candidatePoints
  deriving DecidableEq

def NfpIfpCheckpointPhase.asStr : NfpIfpCheckpointPhase → String
  | .ifp => "ifp"
  | .placedNfp => "placed-nfp"
  | .ifpBoundaryIntersection => "ifp-boundary-intersection"
  | .pairwiseNfpBoundaryIntersection => "pairwise-nfp-boundary-intersection"
  | .candidatePoints => "candidate-points"

structure GeneratePlacementCandidatesInput (heap : ℕ → IrregularPlacedPiece F) where
  sheet : SheetSpec F
  placed : List (PlacedArc heap)
  placedCollisionIndex : PlacedCollisionSpatialIndex heap
  moving : TransformedCollisionGeometry F

/-- How the loop is left before its end. -/
inductive StripExit where
  | failed (failure : StripFailure) (counters : StripCounters) (placedCount : ℕ)
  | error (error : NfpIfpError)

/-- What the loop calls. `notBounded` leaves it when a limit of the clock or the memory
is passed. -/
structure StripAccess (M : Type → Type) (heap : ℕ → IrregularPlacedPiece F) where
  notBounded : (BoundedStatus → StripExit) → M Unit
  transformCollisionGeometry : CollisionGeometry F → IrregularTransformCandidate F →
    M (TransformedCollisionGeometry F)
  generatePlacementCandidates : GeneratePlacementCandidatesInput heap →
    (NfpIfpCheckpointPhase → M Unit) → M (List (IrregularPlacementCandidate F))

structure ContactDecisionCheckpoint (heap : ℕ → IrregularPlacedPiece F) where
  pieceIndex : ℕ
  placedBefore : List (PlacedArc heap)
  collisionIndexBefore : PlacedCollisionSpatialIndex heap
  baselinePiece : PlacedArc heap

/-- The checkpoints are a stack, the last first. -/
structure ConstructState (heap : ℕ → IrregularPlacedPiece F) where
  placed : List (PlacedArc heap)
  placedCollisionIndex : PlacedCollisionSpatialIndex heap
  checkpoints : List (ContactDecisionCheckpoint heap)
  pieceIndex : ℕ
  counters : StripCounters

/-- A count has reached a limit. -/
def reaches (count : ℕ) (limit : Option ℕ) : Bool :=
  match limit with
  | none => false
  | some limit => decide (limit ≤ count)

section Loop

variable {M : Type → Type} [Monad M] [MonadExceptOf StripExit M] (access : StripAccess M heap)
  (alloc : IrregularPlacedPiece F → PlacedArc heap) (input : ConstructStripInput F)

/-- The counters and the candidates anchored so far. -/
abbrev Gathered (F : Type) := StripCounters × List (AnchoredCandidate F)

/-- Back to the last decision that can be taken the other way. -/
def resume (piece : IrregularPreparedPiece F) (state : ConstructState heap)
    (counters : StripCounters) : M (ConstructState heap) :=
  if input.selectionPolicy = .contactFirst then
    match state.checkpoints with
    | [] => throw (.failed (.noLegalPlacement (piece.pieceId.getD piece.sourceId)) counters
        state.placed.length)
    | checkpoint :: checkpoints =>
        if reaches counters.backtrackCount input.maximumBacktracks then
          throw (.failed (.backtracks counters.backtrackCount) counters state.placed.length)
        else
          let resumed := checkpoint.placedBefore ++ [checkpoint.baselinePiece]
          pure {
            placed := resumed
            placedCollisionIndex :=
              checkpoint.collisionIndexBefore.add checkpoint.baselinePiece
            checkpoints := checkpoints
            pieceIndex := checkpoint.pieceIndex + 1
            counters := { counters with
              backtrackCount := counters.backtrackCount + 1
              reusedPrefixPlacements :=
                counters.reusedPrefixPlacements + checkpoint.placedBefore.length
              placedCount := resumed.length } }
  else
    throw (.failed (.noLegalPlacement (piece.pieceId.getD piece.sourceId)) counters
      state.placed.length)

/-- The winner is placed; a decision against the baseline is kept. -/
def advance (piece : IrregularPreparedPiece F) (state : ConstructState heap)
    (counters : StripCounters) (selection : ContactAwareSelection F) :
    ConstructState heap :=
  let placedPiece := alloc (stripPlacedPiece piece selection.winner)
  { placed := state.placed ++ [placedPiece]
    placedCollisionIndex := state.placedCollisionIndex.add placedPiece
    checkpoints := if selection.selectionChanged then {
        pieceIndex := state.pieceIndex
        placedBefore := state.placed
        collisionIndexBefore := state.placedCollisionIndex
        baselinePiece := alloc (stripPlacedPiece piece selection.baselineWinner) } ::
          state.checkpoints
      else state.checkpoints
    pieceIndex := state.pieceIndex + 1
    counters := { counters with
      placedCount := state.placed.length + 1 } }

end Loop

/-- A failed exit is an outcome without placements. -/
def stripOutcome (input : ConstructStripInput F) :
    Except StripExit (Option (IntrinsicShortSideContactStripOutcome heap)) →
      Except NfpIfpError (Option (IntrinsicShortSideContactStripOutcome heap))
  | .ok outcome => .ok outcome
  | .error (.failed failure counters placedCount) =>
      .ok (some (failedOutcome input failure counters placedCount))
  | .error (.error error) => .error error

/-! ## §4  With a clock -/

/-- The state of a run: the clock and the memory, and the caches of the generator. -/
abbrev StripCall (F C : Type) [LinearOrder F] := StateT (StripRuntime F × C) Option

def onRuntime {C α : Type} (call : StateT (StripRuntime F) Option α) : StripCall F C α :=
  fun state => (call.run state.1).map fun (answer, runtime) => (answer, runtime, state.2)

/-- A status leaves the loop by the exit it is given. -/
def leaveIfBounded {C : Type} (exit : BoundedStatus → StripExit) :
    ExceptT StripExit (StripCall F C) Unit := do
  match ← ExceptT.lift (onRuntime boundedStatus) with
  | none => pure ()
  | some bounded => throw (exit bounded)

end PolygonNesting.ContactStrip
