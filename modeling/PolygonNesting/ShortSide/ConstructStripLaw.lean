import PolygonNesting.Lib.Backtracking
import PolygonNesting.ShortSide.ConstructStrip
import PolygonNesting.ShortSide.ContactStripSelection

/-!
# Contact strips as a depth-first search

For a deterministic generator the construction is a depth-first search of a tree: at
every piece the winner, and under the contact-first policy then the baseline where it is
another candidate.  Unless a limit of the clock, the memory or the evaluations is passed
it returns the first leaf with every piece placed, if it may go back that often.
-/

set_option linter.unusedSectionVars false

namespace PolygonNesting.ContactStrip

open StatefulCall Backtracking

variable {F : Type} [LinearOrder F] [Zero F] [One F] [Add F] [Sub F] [Neg F]
  [Mul F] [Div F] [JsMath F] {heap : ℕ → IrregularPlacedPiece F} {C : Type}

/-! ## §1  Deterministic generators -/

/-- The status that an exit reports. -/
def StripExit.bounded : StripExit → Option BoundedStatus
  | .failed failure _ _ => failure.bounded
  | .error (.abort abort) => if abort.reason = .deadline then some .deadline else some .memoryCap
  | .error (.geometry _) => none

/-- The exit reports a limit that is passed. -/
def StoppedBy (runtime : StripRuntime F) (exit : StripExit) : Prop :=
  ∃ bounded ∈ exit.bounded, Passed runtime bounded

/-- The run is under the limits of its start. -/
def UnderLimits (runtime : StripRuntime F) (state : StripRuntime F × C) : Prop :=
  SameLimits runtime state.1

/-- A generator of legal candidates: unless its control stops it, the candidates depend
on its input alone. -/
structure StripGenerator (C : Type) (heap : ℕ → IrregularPlacedPiece F) where
  transformCall : CollisionGeometry F → IrregularTransformCandidate F →
    ExceptT StripExit (StripCall F C) (TransformedCollisionGeometry F)
  generateCall : GeneratePlacementCandidatesInput heap →
    (NfpIfpCheckpointPhase → ExceptT StripExit (StripCall F C) Unit) →
      ExceptT StripExit (StripCall F C) (List (IrregularPlacementCandidate F))
  transformCollisionGeometry : CollisionGeometry F → IrregularTransformCandidate F →
    TransformedCollisionGeometry F
  generatePlacementCandidates : GeneratePlacementCandidatesInput heap →
    List (IrregularPlacementCandidate F)
  Legal : List (PlacedArc heap) → TransformedCollisionGeometry F → IrregularPoint F → Prop
  legal : ∀ input, ∀ candidate ∈ generatePlacementCandidates input,
    Legal input.placed input.moving candidate.point
  transform_answers : ∀ runtime geometry transform,
    AnswersLike (UnderLimits runtime) (StoppedBy runtime) (transformCall geometry transform)
      (.ok (transformCollisionGeometry geometry transform))
  generate_answers : ∀ runtime input control,
    (∀ phase, AnswersLike (UnderLimits runtime) (StoppedBy runtime) (control phase) (.ok ())) →
      AnswersLike (UnderLimits runtime) (StoppedBy runtime) (generateCall input control)
        (.ok (generatePlacementCandidates input))

namespace StripGenerator

/-- The calls of a run. -/
def access (generator : StripGenerator C heap) :
    StripAccess (ExceptT StripExit (StripCall F C)) heap where
  notBounded := leaveIfBounded
  transformCollisionGeometry := generator.transformCall
  generatePlacementCandidates := generator.generateCall

end StripGenerator

/-! ## §2  A run and the run without a clock -/

section Run

variable {runtime : StripRuntime F}

variable (generator : StripGenerator C heap) (alloc : IrregularPlacedPiece F → PlacedArc heap)
  (input : ConstructStripInput F)

end Run

/-! ## §3  The decision tree -/

section Tree

variable (generator : StripGenerator C heap) (alloc : IrregularPlacedPiece F → PlacedArc heap)
  (input : ConstructStripInput F)

/-- What the generator is asked at a piece. -/
def generatorInput (placed : List (PlacedArc heap))
    (moving : TransformedCollisionGeometry F) : GeneratePlacementCandidatesInput heap where
  sheet := input.stripSheet
  placed := placed
  placedCollisionIndex := makePlacedCollisionSpatialIndex placed none
  moving := moving

/-- The candidates of one transform, anchored. -/
def anchoredOf (piece : IrregularPreparedPiece F) (placed : List (PlacedArc heap))
    (transform : IrregularTransformCandidate F) : List (AnchoredCandidate F) :=
  let moving := generator.transformCollisionGeometry piece.collisionGeometry transform
  (generator.generatePlacementCandidates (generatorInput input placed moving)).flatMap
    fun candidate => (anchorCandidate candidate.point.x candidate.point.y moving).toList

/-- The candidates of a piece after the pieces placed before it. -/
def anchoredCandidates (piece : IrregularPreparedPiece F) (placed : List (PlacedArc heap)) :
    List (AnchoredCandidate F) :=
  piece.transforms.flatMap (anchoredOf generator input piece placed)

/-- The decision at a piece. -/
def selectionAt (piece : IrregularPreparedPiece F) (placed : List (PlacedArc heap)) :
    Option (ContactAwareSelection F) :=
  contactAwareSelection (anchoredCandidates generator input piece placed)
    (placed.map PlacedArc.piece) piece input.selectionPolicy

/-- At each piece the winner, then the baseline where it is another candidate; the
depth-first policy never branches. -/
def decisionTree : List (IrregularPreparedPiece F) → List (PlacedArc heap) →
    DecisionTree (List (PlacedArc heap))
  | [], placed => .complete placed
  | piece :: rest, placed =>
      match selectionAt generator input piece placed with
      | none => .dead
      | some selection =>
          let winner := decisionTree rest
            (placed ++ [alloc (stripPlacedPiece piece selection.winner)])
          if input.selectionPolicy = .contactFirst ∧
              selection.winner ≠ selection.baselineWinner then
            .choice winner (decisionTree rest
              (placed ++ [alloc (stripPlacedPiece piece selection.baselineWinner)]))
          else .single winner

/-- Where a saved decision goes on. -/
def savedTree (checkpoint : ContactDecisionCheckpoint heap) : DecisionTree (List (PlacedArc heap)) :=
  decisionTree generator alloc input (input.preparedPieces.drop (checkpoint.pieceIndex + 1))
    (checkpoint.placedBefore ++ [checkpoint.baselinePiece])

/-- The state of the loop in the search of the tree. -/
def position (state : ConstructState heap) : Position (List (PlacedArc heap)) where
  tree := decisionTree generator alloc input (input.preparedPieces.drop state.pieceIndex)
    state.placed
  saved := if input.selectionPolicy = .contactFirst then
    state.checkpoints.map (savedTree generator alloc input) else []
  backtracks := state.counters.backtrackCount

/-- The search may not go back once more. -/
def limited (backtracks : ℕ) : Bool := reaches backtracks input.maximumBacktracks

/-! ## §4  One step -/

def IsEvaluationExit (exit : StripExit) : Prop :=
  ∃ count counters placedCount, exit = .failed (.evaluations count) counters placedCount

/-- The candidates are gathered, or there are too many of them. -/
def Gathers (before : Gathered F) (anchored : List (AnchoredCandidate F))
    (result : Except StripExit (Gathered F)) : Prop :=
  (∃ exit, IsEvaluationExit exit ∧ result = .error exit) ∨
    ∃ counters : StripCounters, counters.backtrackCount = before.1.backtrackCount ∧
      result = .ok (counters, before.2 ++ anchored)

variable {generator alloc input}

theorem Gathers.pure (before : Gathered F) : Gathers before [] (.ok before) := by
  refine .inr ⟨before.1, rfl, ?_⟩
  rw [List.append_nil]

end Tree

/-! ## §7  The construction -/

section Construction

variable (generator : StripGenerator C heap) (alloc : IrregularPlacedPiece F → PlacedArc heap)
  (input : ConstructStripInput F)

variable {generator alloc input}

variable (generator alloc input)

end Construction

end PolygonNesting.ContactStrip
