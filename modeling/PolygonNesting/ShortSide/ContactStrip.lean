import PolygonNesting.Canonical.GridContact
import PolygonNesting.Validation.SpatialIndex

/-!
# Contact strips

Pieces are placed in prepared order inside one strip.  At every piece all legal
candidates are anchored on the grid; the baseline is the one that goes least deep, and
the winner is the one with the strongest exact contact among those the policy compares.
Where the two differ the contact-first policy can come back to the baseline: when a later
piece has no candidate, the most recent such decision is taken the other way.

Clock and memory are read through `bounded_status`.  The code is written over any monad
with such a call, so that the same code without limits says what is computed.
-/

namespace PolygonNesting.ContactStrip

variable {F : Type} [LinearOrder F] [Zero F] [One F] [Add F] [Sub F] [Neg F]
  [Mul F] [Div F] [JsMath F]

/-! ## §1  Limits -/

inductive BoundedStatus where
  | deadline
  | memoryCap
  deriving DecidableEq

def BoundedStatus.asStr : BoundedStatus → String
  | .deadline => "deadline"
  | .memoryCap => "memory-cap"

inductive IntrinsicShortSideContactStripStatus where
  | constructed
  | noLegalPlacement
  | deadline
  | memoryCap
  | evaluationCap
  | failedProtectedFallback
  deriving DecidableEq

def BoundedStatus.toStatus : BoundedStatus → IntrinsicShortSideContactStripStatus
  | .deadline => .deadline
  | .memoryCap => .memoryCap

inductive IntrinsicShortSideContactStripSelectionPolicy where
  | depthFirst
  | contactFirst
  deriving DecidableEq

inductive IntrinsicShortSideContactStripOrderPolicy where
  | prepared
  | reverse
  | pieceIdAscending
  deriving DecidableEq

/-- The clock and the memory of a run; their readings are given by the number of the
call. -/
structure StripRuntime (F : Type) where
  startedAt : F
  startingRssBytes : F
  peakRssBytes : F
  maximumRuntimeMs : F
  maximumRssDeltaBytes : F
  now : ℕ → F
  currentRssBytes : ℕ → F
  nowCalls : ℕ
  rssCalls : ℕ

section Limits

variable {F : Type} [LinearOrder F] [Zero F] [Sub F]

def readNow : StateT (StripRuntime F) Option F := do
  let runtime ← get
  set { runtime with
    nowCalls := runtime.nowCalls + 1 }
  pure (runtime.now runtime.nowCalls)

def sampleRss : StateT (StripRuntime F) Option F := do
  let runtime ← get
  let peakRssBytes := max runtime.peakRssBytes (runtime.currentRssBytes runtime.rssCalls)
  set { runtime with
    peakRssBytes := peakRssBytes
    rssCalls := runtime.rssCalls + 1 }
  pure (max 0 (peakRssBytes - runtime.startingRssBytes))

def boundedStatus : StateT (StripRuntime F) Option (Option BoundedStatus) := do
  let runtime ← get
  let now ← readNow
  if runtime.maximumRuntimeMs < now - runtime.startedAt then pure (some .deadline)
  else
    let rss ← sampleRss
    if runtime.maximumRssDeltaBytes < rss then pure (some .memoryCap) else pure none

end Limits

/-- A status ends the call. -/
def notBounded {M : Type → Type} [Monad M] (boundedStatus : M (Option BoundedStatus)) :
    ExceptT BoundedStatus M Unit := do
  match ← ExceptT.lift boundedStatus with
  | none => pure ()
  | some bounded => throw bounded

/-! ## §2  Anchored candidates -/

structure AnchoredCandidate (F : Type) where
  candidatePointX : F
  candidatePointY : F
  moving : TransformedCollisionGeometry F
  anchorLongAxisGrid : ℤ
  anchorShortAxisGrid : ℤ
  translationLongAxisGrid : ℤ
  translationShortAxisGrid : ℤ
  maxLongAxisGrid : ℤ
  maxShortAxisGrid : ℤ
  transformIndex : F
  rotationDeg : F
  mirrored : Bool
  deriving DecidableEq

/-- The anchor is the minimum corner of the placed collision bounds. -/
def anchorCandidate (candidatePointX candidatePointY : F)
    (moving : TransformedCollisionGeometry F) : Option (AnchoredCandidate F) := do
  let anchorShortAxisGrid ← toGridMm (moving.bounds.minX + candidatePointX)
  let anchorLongAxisGrid ← toGridMm (moving.bounds.minY + candidatePointY)
  let translationShortAxisGrid ← toGridMm candidatePointX
  let translationLongAxisGrid ← toGridMm candidatePointY
  let maxShortAxisGrid ← toGridMm (moving.bounds.maxX + candidatePointX)
  let maxLongAxisGrid ← toGridMm (moving.bounds.maxY + candidatePointY)
  some {
    candidatePointX, candidatePointY, moving, anchorLongAxisGrid, anchorShortAxisGrid
    translationLongAxisGrid, translationShortAxisGrid, maxLongAxisGrid, maxShortAxisGrid
    transformIndex := moving.transform.index
    rotationDeg := moving.transform.rotationDeg
    mirrored := moving.transform.mirrored }

/-- The directional bottom-left order. -/
def compareAnchoredCandidates (first second : AnchoredCandidate F) : Ordering :=
  (compare first.maxLongAxisGrid second.maxLongAxisGrid).then <|
  (compare first.anchorLongAxisGrid second.anchorLongAxisGrid).then <|
  (compare first.anchorShortAxisGrid second.anchorShortAxisGrid).then <|
  (compare first.maxShortAxisGrid second.maxShortAxisGrid).then <|
  (compare first.translationShortAxisGrid second.translationShortAxisGrid).then <|
  (compare first.translationLongAxisGrid second.translationLongAxisGrid).then <|
  (compare first.transformIndex second.transformIndex).then <|
  (compare first.rotationDeg second.rotationDeg).then <|
  compare first.mirrored second.mirrored

structure ContactScore where
  positiveContactCount : ℕ
  axisUnits : ℤ
  deriving DecidableEq

def compareContactScores (first second : ContactScore) : Ordering :=
  if first.positiveContactCount ≠ second.positiveContactCount then
    compare first.positiveContactCount second.positiveContactCount
  else compare first.axisUnits second.axisUnits

def makeStripPlacement (piece : IrregularPreparedPiece F) (anchored : AnchoredCandidate F) :
    IrregularPlacement F where
  pieceId := piece.pieceId
  sourcePieceId := piece.sourceId
  placementReference := some piece.collisionGeometry.placementReference
  transform := {
    translateX := anchored.candidatePointX
    translateY := anchored.candidatePointY
    rotationDeg := anchored.rotationDeg
    mirrored := anchored.mirrored }

/-- A candidate as a placed piece. -/
def stripPlacedPiece (piece : IrregularPreparedPiece F) (anchored : AnchoredCandidate F) :
    IrregularPlacedPiece F where
  placement := makeStripPlacement piece anchored
  collisionGeometry := anchored.moving

/-! ## §3  The contact score -/

section Selection

variable {M : Type → Type} [Monad M] (notBounded : M Unit)

/-- The checkpoint of the measurement hands its status past the measurement. -/
def measureBoundaryOverlap (first second : CanonicalGridPath) :
    M CanonicalGridBoundaryOverlapAxisUnitsResult := do
  let result ← (boundaryOverlapAxisUnits (ExceptT.lift notBounded) first second :
    ExceptT BoundaryOverlapStop M ℤ).run
  pure (overlapResult result)

/-- Piece by piece; `none` where a contact cannot be decided. -/
def addContacts (worldPath : CanonicalGridPath) :
    List (IrregularPlacedPiece F) → ContactScore → M (Option ContactScore)
  | [], score => pure (some score)
  | placedPieceEntry :: rest, score => do
      notBounded
      match placedCollisionWorldGridPath placedPieceEntry with
      | none => pure none
      | some placedWorldPath =>
          match hasPositiveCanonicalGridBoundaryContact F worldPath placedWorldPath with
          | none => pure none
          | some hasPositiveContact =>
              let positiveContactCount := if hasPositiveContact then
                score.positiveContactCount + 1 else score.positiveContactCount
              match ← measureBoundaryOverlap notBounded worldPath placedWorldPath with
              | .aborted => pure none
              | .undecidable => addContacts worldPath rest { score with positiveContactCount }
              | .measured units =>
                  addContacts worldPath rest ⟨positiveContactCount, score.axisUnits + units⟩

def candidateContactAxisUnits (anchored : AnchoredCandidate F)
    (placed : List (IrregularPlacedPiece F)) (piece : IrregularPreparedPiece F) :
    M (Option ContactScore) :=
  match placedCollisionWorldGridPath (stripPlacedPiece piece anchored) with
  | none => pure none
  | some worldPath => addContacts notBounded worldPath placed ⟨0, 0⟩

/-! ## §4  The contact-aware winner -/

structure ContactAwareSelection (F : Type) where
  winner : AnchoredCandidate F
  baselineWinner : AnchoredCandidate F
  tiedCount : ℕ
  tied : List (AnchoredCandidate F)
  winnerScore : Option ContactScore
  baselineScore : Option ContactScore
  selectionChanged : Bool

/-- A candidate with its index. -/
structure IndexedCandidate (F : Type) where
  index : ℕ
  candidate : AnchoredCandidate F

def indexedCandidates (candidates : List (AnchoredCandidate F)) : List (IndexedCandidate F) :=
  candidates.zipIdx.map fun entry => ⟨entry.2, entry.1⟩

def keepBaseline (baseline : Option (IndexedCandidate F)) (anchored : IndexedCandidate F) :
    M (Option (IndexedCandidate F)) := do
  notBounded
  match baseline with
  | none => pure (some anchored)
  | some current =>
      if compareAnchoredCandidates anchored.candidate current.candidate = .lt then
        pure (some anchored)
      else pure (some current)

def isEligible (selectionPolicy : IntrinsicShortSideContactStripSelectionPolicy)
    (baseline anchored : AnchoredCandidate F) : Bool :=
  selectionPolicy == .contactFirst || anchored.maxLongAxisGrid == baseline.maxLongAxisGrid

def keepEligible (selectionPolicy : IntrinsicShortSideContactStripSelectionPolicy)
    (baseline : AnchoredCandidate F) (tied : List (IndexedCandidate F))
    (anchored : IndexedCandidate F) : M (List (IndexedCandidate F)) := do
  notBounded
  if isEligible selectionPolicy baseline anchored.candidate then pure (tied ++ [anchored])
  else pure tied

/-- A challenger wins by a better score, or by its anchor where the scores are equal. -/
def outscores (challenger winner : AnchoredCandidate F)
    (challengerScore winnerScore : ContactScore) : Bool :=
  compareContactScores challengerScore winnerScore == .gt ||
    compareContactScores challengerScore winnerScore == .eq &&
      compareAnchoredCandidates challenger winner == .lt

/-- The challengers in turn; `none` as soon as one has no score. -/
def challenge (placed : List (IrregularPlacedPiece F)) (piece : IrregularPreparedPiece F)
    (selectionPolicy : IntrinsicShortSideContactStripSelectionPolicy)
    (baseline : IndexedCandidate F) :
    List (IndexedCandidate F) → IndexedCandidate F → ContactScore →
      M (Option (IndexedCandidate F × ContactScore))
  | [], winner, winnerScore => pure (some (winner, winnerScore))
  | challenger :: rest, winner, winnerScore => do
      notBounded
      if challenger.index = baseline.index then
        challenge placed piece selectionPolicy baseline rest winner winnerScore
      else if selectionPolicy = .depthFirst ∧
          baseline.candidate.maxLongAxisGrid < challenger.candidate.maxLongAxisGrid then
        challenge placed piece selectionPolicy baseline rest winner winnerScore
      else
        match ← candidateContactAxisUnits notBounded challenger.candidate placed piece with
        | none => pure none
        | some challengerScore =>
            if outscores challenger.candidate winner.candidate challengerScore winnerScore then
              challenge placed piece selectionPolicy baseline rest challenger challengerScore
            else challenge placed piece selectionPolicy baseline rest winner winnerScore

/-- `none` where there is no candidate. -/
def selectContactAwareWinner (candidates : List (AnchoredCandidate F))
    (placed : List (IrregularPlacedPiece F)) (piece : IrregularPreparedPiece F)
    (selectionPolicy : IntrinsicShortSideContactStripSelectionPolicy) :
    M (Option (ContactAwareSelection F)) := do
  match ← (indexedCandidates candidates).foldlM (keepBaseline notBounded) none with
  | none => pure none
  | some baseline =>
      let tied ← (indexedCandidates candidates).foldlM
        (keepEligible notBounded selectionPolicy baseline.candidate) []
      let baselineSelection : ContactAwareSelection F := {
        winner := baseline.candidate
        baselineWinner := baseline.candidate
        tiedCount := tied.length
        tied := tied.map IndexedCandidate.candidate
        winnerScore := none
        baselineScore := none
        selectionChanged := false }
      if tied.length < 2 then pure (some baselineSelection)
      else
        match ← candidateContactAxisUnits notBounded baseline.candidate placed piece with
        | none => pure (some baselineSelection)
        | some baselineScore =>
            match ← challenge notBounded placed piece selectionPolicy baseline tied baseline
                baselineScore with
            | none => pure (some { baselineSelection with
                winnerScore := some baselineScore
                baselineScore := some baselineScore })
            | some (winner, winnerScore) => pure (some { baselineSelection with
                winner := winner.candidate
                winnerScore := some winnerScore
                baselineScore := some baselineScore
                selectionChanged := decide (winner.index ≠ baseline.index) })

end Selection

end PolygonNesting.ContactStrip
