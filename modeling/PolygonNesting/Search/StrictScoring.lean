import PolygonNesting.Lib.Binary64
import PolygonNesting.Lib.SharedMemo
import PolygonNesting.Parallel
import PolygonNesting.Search.AnchoredKey
import PolygonNesting.Search.CompletedRanking
import PolygonNesting.Search.GapRegions

/-!
# Scoring the candidates of a step

One step of the strict decoder scores the legal candidates of every transform of a piece and
keeps the best of every transform family.  Without a clock to observe, the candidates are scored
on the job pool in chunks of 32: the number admitted under the evaluation cap is computed up
front, the workers share the memo of the parent's keys, and the scores of a chunk are replayed in
the order of the candidates.

A count of evaluations is a number of the source, so that counting by ones and counting by a
whole batch are different computations.
-/

namespace PolygonNesting

open Binary64 Interleaving SharedMemo

/-! ## §1  Local scores -/

structure IntrinsicStrictLocalScoreExact where
  maximumSideGrid : ℤ
  envelopeAreaGrid2 : ℤ
  envelopeSpanGrid : ℤ
  deriving DecidableEq

structure IntrinsicStrictLocalScore (F : Type) where
  maximumSideMm : F
  envelopeAreaMm2 : F
  envelopeSpanMm : F
  sharedBoundaryLengthMm : F
  canonicalCombinedGeometryKey : String
  exact : Option IntrinsicStrictLocalScoreExact
  deriving DecidableEq

structure MeasuredEnvelope (F : Type) where
  maximumSideMm : F
  envelopeAreaMm2 : F
  envelopeSpanMm : F
  exact : IntrinsicStrictLocalScoreExact

variable {F : Type} [LinearOrder F] [Zero F] [One F] [Add F] [Sub F] [Neg F] [Mul F] [Div F]
  [JsMath F] {heap : ℕ → IrregularPlacedPiece F}

/-- A beam state whose remaining pieces are prepared pieces. -/
abbrev PreparedBeamState (heap : ℕ → IrregularPlacedPiece F) :=
  IrregularBeamState heap (IrregularPreparedPiece F)

structure ScoredCandidate (heap : ℕ → IrregularPlacedPiece F) where
  state : PreparedBeamState heap
  score : IntrinsicStrictLocalScore F
  transformFamily : String
  candidate : IrregularPlacementCandidate F
  movingCollisionAreaMm2 : F
  movingCollisionDoubledAreaGrid2 : ℤ
  containingGap : Option (CanonicalIntrinsicGapRegion F)

def measureIntrinsicStrictEnvelopeFromState (state : PreparedBeamState heap) :
    Option (MeasuredEnvelope F) := do
  let bounds ← state.translatedCollisionBounds
  let widthGrid ← toGridMm bounds.width
  let heightGrid ← toGridMm bounds.height
  if widthGrid < 0 ∨ heightGrid < 0 then none
  else
    let widthMm : F := fromGrid widthGrid
    let heightMm : F := fromGrid heightGrid
    let maximumSideMm := max widthMm heightMm
    let envelopeAreaMm2 := widthMm * heightMm
    let envelopeSpanMm := widthMm + heightMm
    if [maximumSideMm, envelopeAreaMm2, envelopeSpanMm].all JsNumber.isFinite then
      some {
        maximumSideMm := maximumSideMm
        envelopeAreaMm2 := envelopeAreaMm2
        envelopeSpanMm := envelopeSpanMm
        exact := ⟨max widthGrid heightGrid, widthGrid * heightGrid, widthGrid + heightGrid⟩ }
    else none

/-- By the larger side, the area and the span of the envelope, then by more shared boundary, then
by key. -/
def compareLocalScores (first second : IntrinsicStrictLocalScore F) : Ordering :=
  let primary := match first.exact, second.exact with
    | some firstExact, some secondExact =>
        (ascCmp firstExact.maximumSideGrid secondExact.maximumSideGrid).then <|
          (ascCmp firstExact.envelopeAreaGrid2 secondExact.envelopeAreaGrid2).then <|
            ascCmp firstExact.envelopeSpanGrid secondExact.envelopeSpanGrid
    | _, _ =>
        (ascCmp (canonicalLinearMetric first.maximumSideMm)
          (canonicalLinearMetric second.maximumSideMm)).then <|
          (ascCmp (canonicalAreaMetric first.envelopeAreaMm2)
            (canonicalAreaMetric second.envelopeAreaMm2)).then <|
            ascCmp (canonicalLinearMetric first.envelopeSpanMm)
              (canonicalLinearMetric second.envelopeSpanMm)
  primary.then <|
    (descCmp first.sharedBoundaryLengthMm second.sharedBoundaryLengthMm).then <|
      localeCompareKeys first.canonicalCombinedGeometryKey second.canonicalCombinedGeometryKey

/-- The order of contained candidates; the caller filters to those that have a gap. -/
def compareGapContainedCandidates (first second : ScoredCandidate heap) : Ordering :=
  match first.containingGap, second.containingGap with
  | some firstGap, some secondGap =>
      (compare firstGap.doubledAreaGrid2 secondGap.doubledAreaGrid2).then <|
        (descCmp first.score.sharedBoundaryLengthMm second.score.sharedBoundaryLengthMm).then <|
          compareLocalScores first.score second.score
  | _, _ => .eq

/-! ## §2  One candidate -/

structure StrictScoringInput (heap : ℕ → IrregularPlacedPiece F) where
  state : PreparedBeamState heap
  piece : IrregularPreparedPiece F
  moving : TransformedCollisionGeometry F
  candidate : IrregularPlacementCandidate F
  remainingPreparedPieces : List (IrregularPreparedPiece F)
  transformFamily : String
  movingCollisionAreaMm2 : F
  movingCollisionDoubledAreaGrid2 : ℤ
  gapRegions : Option (List (CanonicalIntrinsicGapRegion F))

def IrregularPreparedPiece.preparedPieceId (piece : IrregularPreparedPiece F) : PieceId :=
  piece.pieceId.getD piece.sourceId

def makePlacement (piece : IrregularPreparedPiece F) (candidate : IrregularPlacementCandidate F) :
    IrregularPlacement F where
  pieceId := piece.pieceId
  sourcePieceId := piece.sourceId
  placementReference := some piece.collisionGeometry.placementReference
  transform := {
    translateX := candidate.point.x
    translateY := candidate.point.y
    rotationDeg := candidate.transform.rotationDeg
    mirrored := candidate.transform.mirrored }

/-- The smallest of the regions that contain the candidate, then the first by key. -/
def containingGapRegion (booleanOpWithPolyTree : BooleanOp) (moving : TransformedCollisionGeometry F)
    (point : IrregularPoint F) (regions : List (CanonicalIntrinsicGapRegion F)) :
    Option (CanonicalIntrinsicGapRegion F) :=
  ((regions.filter fun region =>
      candidateContainedInIntrinsicGapPrechecked booleanOpWithPolyTree moving point region).mergeSort
    fun first second =>
      (ascCmp first.areaMm2 second.areaMm2).then
        (localeCompareKeys first.canonicalKey second.canonicalKey) != .gt).head?

section Scoring

variable (booleanOpWithPolyTree : BooleanOp) (alloc : IrregularPlacedPiece F → PlacedArc heap)

/-- The state with the candidate placed. -/
def StrictScoringInput.placedState (input : StrictScoringInput heap) : PreparedBeamState heap :=
  input.state.withPlacement input.remainingPreparedPieces
    (alloc ⟨makePlacement input.piece input.candidate, input.moving⟩)
    input.piece.preparedPieceId

/-- What `score_candidate` makes of the combined key. -/
def StrictScoringInput.scored (input : StrictScoringInput heap) (key : Option String) :
    Option (ScoredCandidate heap) := do
  let canonicalCombinedGeometryKey ← key
  let placedState := input.placedState alloc
  let envelope ← measureIntrinsicStrictEnvelopeFromState placedState
  let sharedBoundaryLengthMm ← placedState.sharedCollisionBoundaryLengthMm
  if [envelope.maximumSideMm, envelope.envelopeAreaMm2, envelope.envelopeSpanMm,
      sharedBoundaryLengthMm].all JsNumber.isFinite then
    some {
      state := placedState
      transformFamily := input.transformFamily
      candidate := input.candidate
      movingCollisionAreaMm2 := input.movingCollisionAreaMm2
      movingCollisionDoubledAreaGrid2 := input.movingCollisionDoubledAreaGrid2
      containingGap := input.gapRegions.bind
        (containingGapRegion booleanOpWithPolyTree input.moving input.candidate.point)
      score := {
        maximumSideMm := envelope.maximumSideMm
        envelopeAreaMm2 := envelope.envelopeAreaMm2
        envelopeSpanMm := envelope.envelopeSpanMm
        sharedBoundaryLengthMm := sharedBoundaryLengthMm
        canonicalCombinedGeometryKey := canonicalCombinedGeometryKey
        exact := some envelope.exact } }
  else none

/-- `score_candidate`, with the memo as its two locks find it and as the call leaves it. -/
def scoreCandidate (input : StrictScoringInput heap) (seen stored : AnchoredParentKeysMemo F) :
    Option (ScoredCandidate heap) × AnchoredParentKeysMemo F :=
  let (key, memo) :=
    bottomLeftAnchoredKeyViaParentMemo (input.placedState alloc) input.state seen stored
  (input.scored booleanOpWithPolyTree alloc key, memo)

end Scoring

/-! ## §3  The best of every family -/

/-- A candidate replaces the incumbent of its family when it is better; a new family comes last. -/
def retainForFamily (isBetter : ScoredCandidate heap → ScoredCandidate heap → Bool)
    (family : String) (scored : ScoredCandidate heap) :
    List (String × ScoredCandidate heap) → List (String × ScoredCandidate heap)
  | [] => [(family, scored)]
  | (key, incumbent) :: rest =>
      if key = family then
        (key, if isBetter scored incumbent then scored else incumbent) :: rest
      else (key, incumbent) :: retainForFamily isBetter family scored rest

inductive TruncationReason where
  | maximumCandidateEvaluations
  deriving DecidableEq

/-- What the scoring of a step changes. -/
structure StepScoring (heap : ℕ → IrregularPlacedPiece F) where
  candidateCount : Number
  candidateEvaluationCount : Number
  truncationReason : Option TruncationReason
  candidatesByFamily : List (String × ScoredCandidate heap)
  containedCandidatesByFamily : List (String × ScoredCandidate heap)

def replayScoredCandidate (family : String) (scored : ScoredCandidate heap)
    (step : StepScoring heap) : StepScoring heap :=
  { step with
    candidatesByFamily := retainForFamily
      (fun scored incumbent => compareLocalScores scored.score incumbent.score == .lt)
      family scored step.candidatesByFamily
    containedCandidatesByFamily :=
      if scored.containingGap.isSome then
        retainForFamily
          (fun scored incumbent => compareGapContainedCandidates scored incumbent == .lt)
          family scored step.containedCandidatesByFamily
      else step.containedCandidatesByFamily }

/-- A score that is missing changes nothing. -/
def replayOutput (family : String) (step : StepScoring heap)
    (output : Option (ScoredCandidate heap)) : StepScoring heap :=
  match output with
  | none => step
  | some scored => replayScoredCandidate family scored step

/-! ## §4  The cap -/

/-- The cap of a run and whether it counts; a run with a cap counts. -/
structure ScoringLimits where
  maximumCandidateEvaluationCount : Option Number
  captureCandidateEvaluationCount : Bool
  captures : maximumCandidateEvaluationCount.isSome = true → captureCandidateEvaluationCount = true

/-- `js_math::max`. -/
def jsMax (first second : Number) : Number :=
  if first.isNan || second.isNan then .nan else if first.lt second then second else first

/-- The limits of a request: the cap is a whole number from one on. -/
def scoringLimits (maximumCandidateEvaluationCount : Option Number)
    (captureCandidateEvaluationCount checkpointingEnabled : Bool) : ScoringLimits where
  maximumCandidateEvaluationCount :=
    maximumCandidateEvaluationCount.map fun value => jsMax (.ofInt 1) value.floor
  captureCandidateEvaluationCount :=
    captureCandidateEvaluationCount || maximumCandidateEvaluationCount.isSome ||
      checkpointingEnabled
  captures h := by
    rw [Option.isSome_map] at h
    rw [h, Bool.or_true, Bool.true_or]

/-- The serial test before a candidate: `candidate_evaluation_count >= cap`. -/
def ScoringLimits.reached (limits : ScoringLimits) (candidateEvaluationCount : Number) : Bool :=
  match limits.maximumCandidateEvaluationCount with
  | none => false
  | some cap =>
      candidateEvaluationCount.partialCmp cap == some .gt ||
        candidateEvaluationCount.partialCmp cap == some .eq

/-- How many candidates of a batch are admitted, before any of them is scored. -/
def admittedScoringCount (legalCandidateCount : ℕ)
    (maximumCandidateEvaluationCount : Option Number) (candidateEvaluationCount : Number) : ℕ :=
  match maximumCandidateEvaluationCount with
  | none => legalCandidateCount
  | some cap =>
      ((List.range legalCandidateCount).takeWhile fun sourceOrdinal : ℕ =>
        (candidateEvaluationCount.add (.ofInt sourceOrdinal)).partialCmp cap == some .lt ||
          (candidateEvaluationCount.add (.ofInt sourceOrdinal)).partialCmp cap == none).length

/-- The count after some evaluations counted at once. -/
def ScoringLimits.count (limits : ScoringLimits) (evaluations : ℕ) (step : StepScoring heap) :
    StepScoring heap :=
  if limits.captureCandidateEvaluationCount then
    { step with
      candidateEvaluationCount := step.candidateEvaluationCount.add (.ofInt evaluations) }
  else step

def truncate (step : StepScoring heap) : StepScoring heap :=
  { step with truncationReason := some .maximumCandidateEvaluations }

/-! ## §5  Speculative chunks -/

section Speculation

variable {I T E μ σ : Type}

structure IndexedScoringOutcome (T E : Type) where
  sourceOrdinal : ℕ
  outcome : Except E T

/-- By ordinal, then up to the first error. -/
def replayIndexedScoringOutcomes (outcomes : List (IndexedScoringOutcome T E)) :
    Except E (List T) :=
  (outcomes.mergeSort fun first second =>
    decide (first.sourceOrdinal ≤ second.sourceOrdinal)).mapM fun outcome => outcome.outcome

variable (score : I → μ → μ → Except E T × μ)

/-- A chunk without a job pool: one input after another. -/
def scoreInTurn : List (I × ℕ) → μ → List (IndexedScoringOutcome T E) × μ
  | [], memo => ([], memo)
  | (input, sourceOrdinal) :: rest, memo =>
      let (outcome, memo) := score input memo memo
      let (outcomes, memo) := scoreInTurn rest memo
      (⟨sourceOrdinal, outcome⟩ :: outcomes, memo)

/-- The workers of a chunk. -/
def chunkCall (chunk : List (I × ℕ)) (i : Fin chunk.length) : μ → μ → Except E T × μ :=
  score (chunk.get i).1

/-- The outcomes of a chunk and the memo it leaves.  On the job pool the inputs are scored in any
interleaving and arrive in any order. -/
inductive ChunkScored (hasJobPool : Bool) (chunk : List (I × ℕ)) (memo : μ) :
    List (IndexedScoringOutcome T E) → μ → Prop where
  | serial (hpool : hasJobPool = false) :
      ChunkScored hasJobPool chunk memo (scoreInTurn score chunk memo).1
        (scoreInTurn score chunk memo).2
  | pooled (hpool : hasJobPool = true) {memo' : μ} {results : Fin chunk.length → Except E T}
      (run : Steps (fresh (chunkCall score chunk) memo)
        (finished (chunkCall score chunk) memo' results))
      {order : List (Fin chunk.length)} (horder : order.Perm (List.finRange chunk.length)) :
      ChunkScored hasJobPool chunk memo
        (order.map fun i => ⟨(chunk.get i).2, results i⟩) memo'

/-- `replay_admitted_scoring_inputs`: every chunk is scored and replayed before the next. -/
inductive ReplaysAdmitted (hasJobPool : Bool) (replay : σ → T → σ) :
    List (List (I × ℕ)) → μ × σ → Except E (μ × σ) → Prop where
  | done (state : μ × σ) : ReplaysAdmitted hasJobPool replay [] state (.ok state)
  | chunk {chunk : List (I × ℕ)} {rest : List (List (I × ℕ))} {memo memo' : μ} {state : σ}
      {outcomes : List (IndexedScoringOutcome T E)} {outputs : List T}
      {result : Except E (μ × σ)} (hscored : ChunkScored score hasJobPool chunk memo outcomes memo')
      (houtputs : replayIndexedScoringOutcomes outcomes = .ok outputs)
      (hrest : ReplaysAdmitted hasJobPool replay rest (memo', outputs.foldl replay state) result) :
      ReplaysAdmitted hasJobPool replay (chunk :: rest) (memo, state) result
  | failed {chunk : List (I × ℕ)} {rest : List (List (I × ℕ))} {memo memo' : μ} {state : σ}
      {outcomes : List (IndexedScoringOutcome T E)} {error : E}
      (hscored : ChunkScored score hasJobPool chunk memo outcomes memo')
      (herror : replayIndexedScoringOutcomes outcomes = .error error) :
      ReplaysAdmitted hasJobPool replay (chunk :: rest) (memo, state) (.error error)

end Speculation

/-! ## §6  The two modes -/

/-- `STRICT_SCORING_CHUNK_SIZE`. -/
def strictScoringChunkSize : ℕ := 32

/-- What a step scores with. -/
structure ScoringStep (heap : ℕ → IrregularPlacedPiece F) where
  state : PreparedBeamState heap
  piece : IrregularPreparedPiece F
  remainingPreparedPieces : List (IrregularPreparedPiece F)
  gapRegions : Option (List (CanonicalIntrinsicGapRegion F))

/-- The legal candidates of one transform. -/
structure TransformBatch (F : Type) where
  moving : TransformedCollisionGeometry F
  movingCollisionAreaMm2 : F
  movingCollisionDoubledAreaGrid2 : ℤ
  legalCandidates : List (IrregularPlacementCandidate F)

inductive TransformStepOutcome (F E : Type) where
  | fail (error : E)
  | skip
  | ready (batch : TransformBatch F)

def transformFamilyKey (transform : IrregularTransformCandidate F) : String :=
  let remainder := JsMath.remainder transform.rotationDeg (JsNumber.ofNat 360)
  let rotationDeg := if remainder < 0 then remainder + JsNumber.ofNat 360 else remainder
  JsMath.numberToJsString rotationDeg ++ ":" ++ if transform.mirrored then "1" else "0"

def ScoringStep.inputs (step : ScoringStep heap) (family : String) (batch : TransformBatch F) :
    List (StrictScoringInput heap) :=
  batch.legalCandidates.map fun candidate =>
    { state := step.state
      piece := step.piece
      moving := batch.moving
      candidate := candidate
      remainingPreparedPieces := step.remainingPreparedPieces
      transformFamily := family
      movingCollisionAreaMm2 := batch.movingCollisionAreaMm2
      movingCollisionDoubledAreaGrid2 := batch.movingCollisionDoubledAreaGrid2
      gapRegions := step.gapRegions }

section Modes

variable (booleanOpWithPolyTree : BooleanOp) (alloc : IrregularPlacedPiece F → PlacedArc heap)
  (limits : ScoringLimits) {E : Type}

/-- `StrictScoringInput::score`, which does not fail. -/
def StrictScoringInput.score (E : Type) (input : StrictScoringInput heap)
    (seen stored : AnchoredParentKeysMemo F) :
    Except E (Option (ScoredCandidate heap)) × AnchoredParentKeysMemo F :=
  let (scored, memo) := scoreCandidate booleanOpWithPolyTree alloc input seen stored
  (.ok scored, memo)

/-- The candidates of a batch, serially. -/
def scoreSerially (family : String) : List (StrictScoringInput heap) →
    AnchoredParentKeysMemo F × StepScoring heap → AnchoredParentKeysMemo F × StepScoring heap
  | [], state => state
  | input :: rest, (memo, scoring) =>
      if limits.reached scoring.candidateEvaluationCount then (memo, truncate scoring)
      else
        let scoring := limits.count 1 scoring
        let (scored, memo) := scoreCandidate booleanOpWithPolyTree alloc input memo memo
        scoreSerially family rest (memo, replayOutput family scoring scored)

/-- `candidate_count += legal_candidates.len()`. -/
def StepScoring.addCandidates (scoring : StepScoring heap) (count : ℕ) : StepScoring heap :=
  { scoring with candidateCount := scoring.candidateCount.add (.ofInt count) }

/-- The transforms of a piece, serially; a truncation leaves the loop. -/
def serialStep (step : ScoringStep heap) :
    List (IrregularTransformCandidate F × TransformStepOutcome F E) →
      AnchoredParentKeysMemo F × StepScoring heap →
        Except E (AnchoredParentKeysMemo F × StepScoring heap)
  | [], state => .ok state
  | (_, .fail error) :: _, _ => .error error
  | (_, .skip) :: rest, state => serialStep step rest state
  | (transform, .ready batch) :: rest, (memo, scoring) =>
      let family := transformFamilyKey transform
      let next := scoreSerially booleanOpWithPolyTree alloc limits family
        (step.inputs family batch) (memo, scoring.addCandidates batch.legalCandidates.length)
      if next.2.truncationReason.isSome then .ok next else serialStep step rest next

/-- How many candidates of a batch the parallel mode admits. -/
def ScoringLimits.admitted (limits : ScoringLimits) (batch : TransformBatch F)
    (scoring : StepScoring heap) : ℕ :=
  admittedScoringCount batch.legalCandidates.length limits.maximumCandidateEvaluationCount
    scoring.candidateEvaluationCount

/-- A batch in the parallel mode, up to the truncation. -/
def BatchReplays (hasJobPool : Bool) (step : ScoringStep heap) (family : String)
    (batch : TransformBatch F) (state : AnchoredParentKeysMemo F × StepScoring heap)
    (result : Except E (AnchoredParentKeysMemo F × StepScoring heap)) : Prop :=
  let scoring := state.2.addCandidates batch.legalCandidates.length
  let admitted := limits.admitted batch scoring
  ReplaysAdmitted (StrictScoringInput.score booleanOpWithPolyTree alloc E) hasJobPool
    (replayOutput family)
    (chunks strictScoringChunkSize (((step.inputs family batch).take admitted).zipIdx))
    (state.1, limits.count admitted scoring) result

/-- The transforms of a piece on the job pool. -/
inductive ParallelStep (hasJobPool : Bool) (step : ScoringStep heap) :
    List (IrregularTransformCandidate F × TransformStepOutcome F E) →
      AnchoredParentKeysMemo F × StepScoring heap →
        Except E (AnchoredParentKeysMemo F × StepScoring heap) → Prop where
  | done (state) : ParallelStep hasJobPool step [] state (.ok state)
  | fail {transform rest state} {error : E} :
      ParallelStep hasJobPool step ((transform, .fail error) :: rest) state (.error error)
  | skip {transform rest state result} (hrest : ParallelStep hasJobPool step rest state result) :
      ParallelStep hasJobPool step ((transform, .skip) :: rest) state result
  | failed {transform batch rest state} {error : E}
      (hbatch : BatchReplays (E := E) booleanOpWithPolyTree alloc limits hasJobPool step
        (transformFamilyKey transform) batch state (.error error)) :
      ParallelStep hasJobPool step ((transform, .ready batch) :: rest) state (.error error)
  | truncated {transform batch rest state memo scoring}
      (hbatch : BatchReplays (E := E) booleanOpWithPolyTree alloc limits hasJobPool step
        (transformFamilyKey transform) batch state (.ok (memo, scoring)))
      (hfewer : limits.admitted batch state.2 < batch.legalCandidates.length) :
      ParallelStep hasJobPool step ((transform, .ready batch) :: rest) state
        (.ok (memo, truncate scoring))
  | next {transform batch rest state state' result}
      (hbatch : BatchReplays (E := E) booleanOpWithPolyTree alloc limits hasJobPool step
        (transformFamilyKey transform) batch state (.ok state'))
      (hall : ¬limits.admitted batch state.2 < batch.legalCandidates.length)
      (hrest : ParallelStep hasJobPool step rest state' result) :
      ParallelStep hasJobPool step ((transform, .ready batch) :: rest) state result

end Modes

end PolygonNesting
