import PolygonNesting.Capacity.ColdSearch
import PolygonNesting.Parallel

/-!
# Evaluating candidates over the job pool

The capacity search computes the outcomes of the candidates its budget admits over
the job pool, then replays all candidates in order: the cap checks, the counters, the
first error and the scored list come from the replay.  A candidate with no computed
outcome is evaluated where it stands.

A batch is told apart by the evaluations consumed before it: batches with candidates
differ in that number.
-/

set_option linter.unusedSectionVars false

namespace PolygonNesting

variable {F : Type} [LinearOrder F] [Zero F] [One F] [Add F] [Sub F] [Neg F]
  [Mul F] [Div F] [JsMath F] {heap : ℕ → IrregularPlacedPiece F}

namespace DepthContext

/-! ## §1  The pooled loops -/

/-- The candidates that both budgets leave room for. -/
def admittedCandidateCount (context : DepthContext heap)
    (legalCandidates : List (IrregularPlacementCandidate F))
    (expansion : DepthExpansion heap) : ℕ :=
  let remaining : ℤ := max 0 (min
    ((intrinsicCapacityV1Bounds.placementEvaluationQuotaPerDepth : ℤ) -
      expansion.consumedAtDepth)
    ((context.input.placementEvaluationCap : ℤ) -
      expansion.consumedPlacementEvaluations))
  (min (legalCandidates.length : ℤ) remaining).toNat

/-- The replay, at candidate number `ordinal`. -/
def replayCandidates (context : DepthContext heap) (entry : CapacityEntry heap)
    (moving : TransformedCollisionGeometry F) (transformOrdinal : ℕ)
    (precomputedOutcomes : List (Except String (CandidateEvaluationOutcome F))) :
    ℕ → List (IrregularPlacementCandidate F) → DepthExpansion heap →
      List (EvaluatedCandidateReference F) →
      Except CapacitySearchError
        (DepthExpansion heap × List (EvaluatedCandidateReference F))
  | _, [], expansion, scored => .ok (expansion, scored)
  | ordinal, candidate :: candidates, expansion, scored =>
      if intrinsicCapacityV1Bounds.placementEvaluationQuotaPerDepth ≤
            expansion.consumedAtDepth ∨
          context.input.placementEvaluationCap ≤
            expansion.consumedPlacementEvaluations then
        .ok ({ expansion with depthQuotaExhausted := true }, scored)
      else
        match precomputedOutcomes[ordinal]?.getD
            (context.evaluateCandidateOutcome entry moving transformOrdinal candidate) with
        | .error message => .error (capacityError "capacityContactFanout" message)
        | .ok .invalid => replayCandidates context entry moving transformOrdinal
            precomputedOutcomes (ordinal + 1) candidates expansion.consume.countInvalid
            scored
        | .ok .fitRejected => replayCandidates context entry moving transformOrdinal
            precomputedOutcomes (ordinal + 1) candidates
            expansion.consume.countFitRejected scored
        | .ok (.scored evaluated) => replayCandidates context entry moving
            transformOrdinal precomputedOutcomes (ordinal + 1) candidates
            expansion.consume (scored ++ [evaluated])

/-- Compute the admitted candidates as one batch, then replay. -/
def evaluateCandidatesWithJobPool (pool : Option JobPool) (context : DepthContext heap)
    (entry : CapacityEntry heap) (moving : TransformedCollisionGeometry F)
    (transformOrdinal : ℕ) (legalCandidates : List (IrregularPlacementCandidate F))
    (expansion : DepthExpansion heap) (scored : List (EvaluatedCandidateReference F)) :
    Except CapacitySearchError
      (DepthExpansion heap × List (EvaluatedCandidateReference F)) :=
  let admittedCandidateCount := context.admittedCandidateCount legalCandidates expansion
  let precomputedOutcomes := mapSliceWithJobPool pool
    expansion.consumedPlacementEvaluations (legalCandidates.take admittedCandidateCount)
    (context.evaluateCandidateOutcome entry moving transformOrdinal)
  context.replayCandidates entry moving transformOrdinal precomputedOutcomes 0
    legalCandidates expansion scored

/-- `evaluateTransforms` over the pool. -/
def evaluateTransformsWithJobPool (pool : Option JobPool) (context : DepthContext heap)
    (entry : CapacityEntry heap) :
    List (IrregularTransformCandidate F × ℕ) → DepthExpansion heap →
      List (EvaluatedCandidateReference F) →
      Except CapacitySearchError
        (DepthExpansion heap × List (EvaluatedCandidateReference F))
  | [], expansion, scored => .ok (expansion, scored)
  | (transform, transformOrdinal) :: transforms, expansion, scored =>
      if expansion.depthQuotaExhausted then .ok (expansion, scored)
      else do
        let moving ← transformCollisionGeometry context.subsystems
          context.piece.collisionGeometry transform
        let candidates ← legalCandidates context.subsystems entry.state moving
        let (expansion, scored) ← context.evaluateCandidatesWithJobPool pool entry moving
          transformOrdinal candidates expansion scored
        context.evaluateTransformsWithJobPool pool entry transforms expansion scored

/-- `expandEntries` over the pool. -/
def expandEntriesWithJobPool (pool : Option JobPool) (context : DepthContext heap) :
    List (CapacityEntry heap) → DepthExpansion heap →
      Except CapacitySearchError (DepthExpansion heap)
  | [], expansion => .ok expansion
  | entry :: beam, expansion =>
      if expansion.depthQuotaExhausted then .ok expansion
      else do
        let (expansion, scored) ← context.evaluateTransformsWithJobPool pool entry
          (context.piece.transforms.mergeSort (sortLe transformCandidateOrder)).zipIdx
          expansion []
        let scored := scored.mergeSort (sortLe compareScoredCandidateReferences)
        let (expansion, builtCandidateKeys) :=
          context.buildCompact entry scored 0 [] expansion
        context.expandEntriesWithJobPool pool beam
          (context.buildContact entry scored builtCandidateKeys expansion)

/-! ## §2  The pool changes nothing -/

/-- A replay that finds the right outcome wherever it finds one. -/
theorem replayCandidates_eq (context : DepthContext heap) (entry : CapacityEntry heap)
    (moving : TransformedCollisionGeometry F) (transformOrdinal : ℕ)
    (precomputedOutcomes : List (Except String (CandidateEvaluationOutcome F)))
    (candidates : List (IrregularPlacementCandidate F)) :
    ∀ (ordinal : ℕ) (expansion : DepthExpansion heap)
      (scored : List (EvaluatedCandidateReference F)),
      (∀ (k : ℕ) (candidate : IrregularPlacementCandidate F),
        candidates[k]? = some candidate →
          precomputedOutcomes[ordinal + k]?.getD
              (context.evaluateCandidateOutcome entry moving transformOrdinal candidate) =
            context.evaluateCandidateOutcome entry moving transformOrdinal candidate) →
      context.replayCandidates entry moving transformOrdinal precomputedOutcomes ordinal
          candidates expansion scored =
        context.evaluateCandidates entry moving transformOrdinal candidates expansion
          scored := by
  induction candidates with
  | nil =>
      intro ordinal expansion scored _
      rfl
  | cons candidate candidates ih =>
      intro ordinal expansion scored hprecomputed
      have hfirst := hprecomputed 0 candidate rfl
      rw [Nat.add_zero] at hfirst
      have hrest : ∀ (k : ℕ) (other : IrregularPlacementCandidate F),
          candidates[k]? = some other →
            precomputedOutcomes[ordinal + 1 + k]?.getD
                (context.evaluateCandidateOutcome entry moving transformOrdinal other) =
              context.evaluateCandidateOutcome entry moving transformOrdinal other := by
        intro k other hother
        rw [Nat.add_assoc, Nat.add_comm 1 k]
        exact hprecomputed (k + 1) other hother
      unfold replayCandidates evaluateCandidates
      rw [hfirst]
      split
      · rfl
      · cases context.evaluateCandidateOutcome entry moving transformOrdinal candidate with
        | error message => rfl
        | ok outcome =>
            cases outcome with
            | invalid => exact ih _ _ _ hrest
            | fitRejected => exact ih _ _ _ hrest
            | scored evaluated => exact ih _ _ _ hrest

theorem evaluateCandidatesWithJobPool_eq (pool : Option JobPool)
    (context : DepthContext heap) (entry : CapacityEntry heap)
    (moving : TransformedCollisionGeometry F) (transformOrdinal : ℕ)
    (candidates : List (IrregularPlacementCandidate F)) (expansion : DepthExpansion heap)
    (scored : List (EvaluatedCandidateReference F)) :
    context.evaluateCandidatesWithJobPool pool entry moving transformOrdinal candidates
        expansion scored =
      context.evaluateCandidates entry moving transformOrdinal candidates expansion
        scored := by
  unfold evaluateCandidatesWithJobPool
  dsimp only
  rw [mapSliceWithJobPool_eq_map]
  refine context.replayCandidates_eq entry moving transformOrdinal _ candidates 0 expansion
    scored ?_
  intro k candidate hcandidate
  rw [Nat.zero_add, List.getElem?_map, List.getElem?_take]
  split
  · rw [hcandidate]
    rfl
  · rfl

theorem evaluateTransformsWithJobPool_eq (pool : Option JobPool)
    (context : DepthContext heap) (entry : CapacityEntry heap)
    (transforms : List (IrregularTransformCandidate F × ℕ)) :
    ∀ (expansion : DepthExpansion heap) (scored : List (EvaluatedCandidateReference F)),
      context.evaluateTransformsWithJobPool pool entry transforms expansion scored =
        context.evaluateTransforms entry transforms expansion scored := by
  induction transforms with
  | nil =>
      intro expansion scored
      rfl
  | cons transform transforms ih =>
      intro expansion scored
      unfold evaluateTransformsWithJobPool evaluateTransforms
      simp only [evaluateCandidatesWithJobPool_eq, ih]

theorem expandEntriesWithJobPool_eq (pool : Option JobPool) (context : DepthContext heap)
    (beam : List (CapacityEntry heap)) : ∀ expansion : DepthExpansion heap,
    context.expandEntriesWithJobPool pool beam expansion =
      context.expandEntries beam expansion := by
  induction beam with
  | nil => intro expansion; rfl
  | cons entry beam ih =>
      intro expansion
      unfold expandEntriesWithJobPool expandEntries
      simp only [evaluateTransformsWithJobPool_eq, ih]

/-! ## §3  The admitted prefix -/

/-- The number of candidates left to admit, without the detour over the integers. -/
theorem admittedCandidateCount_eq (context : DepthContext heap)
    (candidates : List (IrregularPlacementCandidate F)) (expansion : DepthExpansion heap) :
    context.admittedCandidateCount candidates expansion =
      min candidates.length (min
        (intrinsicCapacityV1Bounds.placementEvaluationQuotaPerDepth -
          expansion.consumedAtDepth)
        (context.input.placementEvaluationCap -
          expansion.consumedPlacementEvaluations)) := by
  unfold admittedCandidateCount
  dsimp only
  omega

/-- An evaluation without an error consumes exactly the admitted candidates, and sets
the quota flag when a candidate is left. -/
theorem evaluateCandidates_admitted (context : DepthContext heap)
    (entry : CapacityEntry heap) (moving : TransformedCollisionGeometry F)
    (transformOrdinal : ℕ) (candidates : List (IrregularPlacementCandidate F)) :
    ∀ (expansion expansion' : DepthExpansion heap)
      (scored scored' : List (EvaluatedCandidateReference F)),
      context.evaluateCandidates entry moving transformOrdinal candidates expansion scored =
        .ok (expansion', scored') →
      expansion'.consumedAtDepth = expansion.consumedAtDepth +
          context.admittedCandidateCount candidates expansion ∧
        expansion'.consumedPlacementEvaluations =
          expansion.consumedPlacementEvaluations +
            context.admittedCandidateCount candidates expansion ∧
        expansion'.depthQuotaExhausted = (expansion.depthQuotaExhausted ||
          decide (context.admittedCandidateCount candidates expansion <
            candidates.length)) := by
  induction candidates with
  | nil =>
      intro expansion expansion' scored scored' hrun
      cases hrun
      simp [admittedCandidateCount_eq]
  | cons candidate candidates ih =>
      intro expansion expansion' scored scored' hrun
      unfold evaluateCandidates at hrun
      split at hrun
      · rename_i hexhausted
        cases hrun
        have hnone : context.admittedCandidateCount (candidate :: candidates) expansion =
            0 := by
          rw [admittedCandidateCount_eq]
          omega
        simp [hnone]
      · rename_i hroom
        rw [not_or, not_le, not_le] at hroom
        -- whatever the outcome, one evaluation is consumed
        have hstep : ∀ (next : DepthExpansion heap)
            (scored'' : List (EvaluatedCandidateReference F)),
            next.consumedAtDepth = expansion.consumedAtDepth + 1 →
            next.consumedPlacementEvaluations =
              expansion.consumedPlacementEvaluations + 1 →
            next.depthQuotaExhausted = expansion.depthQuotaExhausted →
            context.evaluateCandidates entry moving transformOrdinal candidates next
              scored'' = .ok (expansion', scored') →
            expansion'.consumedAtDepth = expansion.consumedAtDepth +
                context.admittedCandidateCount (candidate :: candidates) expansion ∧
              expansion'.consumedPlacementEvaluations =
                expansion.consumedPlacementEvaluations +
                  context.admittedCandidateCount (candidate :: candidates) expansion ∧
              expansion'.depthQuotaExhausted = (expansion.depthQuotaExhausted ||
                decide (context.admittedCandidateCount (candidate :: candidates)
                  expansion < (candidate :: candidates).length)) := by
          intro next scored'' hdepth htotal hflag hnext
          obtain ⟨hdepth', htotal', hflag'⟩ := ih _ _ _ _ hnext
          have hadmitted : context.admittedCandidateCount (candidate :: candidates)
              expansion = context.admittedCandidateCount candidates next + 1 := by
            rw [admittedCandidateCount_eq, admittedCandidateCount_eq, hdepth, htotal,
              List.length_cons]
            omega
          rw [hadmitted, hdepth', htotal', hflag', hdepth, htotal, hflag, List.length_cons]
          refine ⟨by omega, by omega, ?_⟩
          simp
        cases houtcome : context.evaluateCandidateOutcome entry moving transformOrdinal
            candidate with
        | error message =>
            rw [houtcome] at hrun
            cases hrun
        | ok outcome =>
            rw [houtcome] at hrun
            cases outcome with
            | invalid => exact hstep expansion.consume.countInvalid scored rfl rfl rfl hrun
            | fitRejected =>
                exact hstep expansion.consume.countFitRejected scored rfl rfl rfl hrun
            | scored evaluated =>
                exact hstep expansion.consume (scored ++ [evaluated]) rfl rfl rfl hrun

end DepthContext

/-- One pass of the depth loop over the pool. -/
def SearchContext.searchDepthWithJobPool (pool : Option JobPool)
    (context : SearchContext heap) (depth : ℕ) (piece : IrregularPreparedPiece F)
    (progress : SearchProgress heap) :
    Except CapacitySearchError
      (SearchProgress heap × IntrinsicAnytimeDepthBudgetLedger) :=
  let pieceId := intrinsicCapacityPreparedPieceId piece
  match context.input.materialAreasByPieceId pieceId with
  | none => .error (capacityError "coldSearchMaterial"
      ("piece " ++ pieceId ++ " has no exact material accounting."))
  | some pieceMaterial => do
      let depthContext := context.depthContext depth piece pieceMaterial
      let expansion ← depthContext.expandEntriesWithJobPool pool progress.beam
        (depthContext.reserveSkips progress.beam
          ⟨[], progress.counters, progress.consumedPlacementEvaluations, 0, false⟩)
      .ok (context.retainDepth depth progress.cavityCache expansion,
        ⟨depth, expansion.consumedAtDepth, expansion.depthQuotaExhausted⟩)

theorem SearchContext.searchDepthWithJobPool_eq (pool : Option JobPool)
    (context : SearchContext heap) (depth : ℕ) (piece : IrregularPreparedPiece F)
    (progress : SearchProgress heap) :
    context.searchDepthWithJobPool pool depth piece progress =
      context.searchDepth depth piece progress := by
  unfold SearchContext.searchDepthWithJobPool SearchContext.searchDepth
  dsimp only
  cases context.input.materialAreasByPieceId (intrinsicCapacityPreparedPieceId piece) with
  | none => rfl
  | some pieceMaterial => simp only [DepthContext.expandEntriesWithJobPool_eq]

/-! ## §4  Parallel is serial -/

/-- A pool changes nothing.  A chunked evaluation with a pool is the one without, and
both are the serial loop: the same effects, result, visited items and checkpoints.
What is visited is the items up to and including the first failing one, and no chunk
is dispatched behind the last visited item.  A batch of candidates gives the same
expansion, scored list and error over a pool and consumes exactly the candidates its
budgets admit, and so a depth of the capacity search has the same result. -/
theorem parallelEvaluation_eq_serial {S T E σ : Type} (closures : ChunkClosures S T E σ)
    (pool : JobPool) (items : List S) (chunkSize : ℕ) (state : σ)
    (search : SearchContext heap) (depth : ℕ) (piece : IrregularPreparedPiece F)
    (progress : SearchProgress heap) (context : DepthContext heap)
    (entry : CapacityEntry heap) (moving : TransformedCollisionGeometry F)
    (transformOrdinal : ℕ) (candidates : List (IrregularPlacementCandidate F))
    (expansion : DepthExpansion heap) (scored : List (EvaluatedCandidateReference F)) :
    (forEachChunkedOutcome closures (some pool) items chunkSize state =
        forEachChunkedOutcome closures none items chunkSize state) ∧
      (forEachChunkedOutcome closures (some pool) items chunkSize state = none ↔
        chunkSize = 0) ∧
      (∀ run, forEachChunkedOutcome closures (some pool) items chunkSize state = some run →
        { run with dispatched := [] } = serialLoop closures chunkSize 0 items state ∧
          OrderedReplay closures chunkSize items run) ∧
      (context.evaluateCandidatesWithJobPool (some pool) entry moving transformOrdinal
          candidates expansion scored =
        context.evaluateCandidatesWithJobPool none entry moving transformOrdinal
          candidates expansion scored) ∧
      (∀ expansion' scored', context.evaluateCandidatesWithJobPool (some pool) entry moving
          transformOrdinal candidates expansion scored = .ok (expansion', scored') →
        expansion'.consumedAtDepth = expansion.consumedAtDepth +
            context.admittedCandidateCount candidates expansion ∧
          expansion'.consumedPlacementEvaluations =
            expansion.consumedPlacementEvaluations +
              context.admittedCandidateCount candidates expansion) ∧
      (search.searchDepthWithJobPool (some pool) depth piece progress =
        search.searchDepthWithJobPool none depth piece progress) := by
  refine ⟨?_, ?_, ?_, ?_, ?_, ?_⟩
  · unfold forEachChunkedOutcome
    rw [runChunks_pool]
  · unfold forEachChunkedOutcome
    split <;> simp_all
  · intro run hrun
    unfold forEachChunkedOutcome at hrun
    split at hrun
    · cases hrun
    · rename_i hsize
      cases hrun
      have hpos : 0 < chunkSize := Nat.pos_of_ne_zero hsize
      exact ⟨runChunks_eq_serialLoop closures _ hpos _ items 0 0 state le_rfl
          (Nat.zero_mod _),
        runChunks_orderedReplay closures _ hpos _ items 0 state le_rfl⟩
  · rw [DepthContext.evaluateCandidatesWithJobPool_eq,
      DepthContext.evaluateCandidatesWithJobPool_eq]
  · intro expansion' scored' hrun
    rw [DepthContext.evaluateCandidatesWithJobPool_eq] at hrun
    obtain ⟨hdepth, htotal, _⟩ := context.evaluateCandidates_admitted entry moving
      transformOrdinal candidates _ _ _ _ hrun
    exact ⟨hdepth, htotal⟩
  · rw [SearchContext.searchDepthWithJobPool_eq, SearchContext.searchDepthWithJobPool_eq]

end PolygonNesting
