import PolygonNesting.Lib.ResumableLoop
import PolygonNesting.Capacity.CavityCache
import PolygonNesting.Capacity.ColdSearchRun
import PolygonNesting.Capacity.DepthStep

set_option linter.unusedSectionVars false

/-!
# Pausing and resuming a search

The depth loop is a resumable loop, and a checkpoint saves its state: a lane
that is paused at any depth boundaries and resumed from the checkpoints it
emitted visits the same beams and makes the same reports as one call.

What a checkpoint does not save is the settlement, which starts over as
`exhausted` in every call.  The resumed lane settles like the uninterrupted one
except when its quota was exhausted in an earlier call and not in the last.
-/

namespace PolygonNesting

open ResumableLoop

variable {F : Type} [LinearOrder F] [Zero F] [One F] [Add F] [Sub F] [Neg F]
  [Mul F] [Div F] [JsMath F] {heap : ℕ → IrregularPlacedPiece F}

/-! ## §1  The depth loop -/

/-- What a depth reports: its ledger, and whether a skip-free state is left. -/
abbrev DepthReport := IntrinsicAnytimeDepthBudgetLedger × Bool

def hasNoSkipState (beam : List (CapacityEntry heap)) : Bool :=
  beam.any fun entry => entry.state.unplacedPieceIds.isEmpty

/-- The progress is the state of the loop, the report is what it accounts for. -/
def SearchContext.depthStep (context : SearchContext heap)
    (input : IrregularPreparedPiece F × ℕ) (progress : SearchProgress heap) :
    Except CapacitySearchError (SearchProgress heap × DepthReport) :=
  (context.searchDepth input.2 input.1 progress).map fun next =>
    (next.1, next.2, hasNoSkipState next.1.beam)

def SearchProgress.spent (progress : SearchProgress heap) : Bool :=
  progress.beam.isEmpty

def SearchContext.pauses (context : SearchContext heap)
    (maximumDepthBoundaries : Option ℕ) (completedDepthBoundaries : ℕ)
    (input : IrregularPreparedPiece F × ℕ) : Bool :=
  maximumDepthBoundaries.any (fun maximum => decide (maximum ≤ completedDepthBoundaries)) &&
    decide (input.2 + 1 < context.input.preparedPieces.length)

/-- `SearchAccounts.record` on a report. -/
def SearchAccounts.recordReport (checkpointEnabled : Bool) (accounts : SearchAccounts)
    (report : DepthReport) : SearchAccounts :=
  let settlement :=
    if report.1.quotaExhausted then .evaluationCap else accounts.settlement
  if checkpointEnabled then
    { settlement := settlement
      perDepthBudgetLedgers := accounts.perDepthBudgetLedgers ++ [report.1]
      noSkipFrontier :=
        { present := report.2
          firstLossDepth := accounts.noSkipFrontier.firstLossDepth.or
            (if accounts.noSkipFrontier.present && !report.2 then
              some (report.1.depth + 1) else none) } }
  else { accounts with settlement := settlement }

/-- All reports in order. -/
def SearchAccounts.recordReports (checkpointEnabled : Bool) (accounts : SearchAccounts)
    (reports : List DepthReport) : SearchAccounts :=
  reports.foldl (recordReport checkpointEnabled) accounts

/-- The end of the resumable loop, with its reports recorded. -/
def loopOutcome (checkpointEnabled : Bool) (accounts : SearchAccounts) :
    Ended (IrregularPreparedPiece F × ℕ) (SearchProgress heap) DepthReport →
      LoopOutcome heap
  | .finished progress reports =>
      .finished ⟨progress, accounts.recordReports checkpointEnabled reports⟩
  | .paused last _ progress reports =>
      .paused (last.2 + 1) ⟨progress, accounts.recordReports checkpointEnabled reports⟩

theorem loopOutcome_prepend (checkpointEnabled : Bool) (accounts : SearchAccounts)
    (report : DepthReport)
    (ended : Ended (IrregularPreparedPiece F × ℕ) (SearchProgress heap) DepthReport) :
    loopOutcome checkpointEnabled accounts (ended.prepend report) =
      loopOutcome checkpointEnabled (accounts.recordReport checkpointEnabled report)
        ended := by
  cases ended <;> rfl

/-- **The depth loop is a resumable loop.** -/
theorem SearchContext.searchDepths_eq (context : SearchContext heap)
    (checkpointEnabled : Bool) (maximumDepthBoundaries : Option ℕ)
    (depths : List (IrregularPreparedPiece F × ℕ)) :
    ∀ (completed : ℕ) (loop : SearchLoop heap),
      context.searchDepths checkpointEnabled maximumDepthBoundaries depths completed
          loop =
        (runUntil context.depthStep SearchProgress.spent
          (context.pauses maximumDepthBoundaries) depths completed loop.progress).map
            (loopOutcome checkpointEnabled loop.accounts) := by
  induction depths with
  | nil =>
      intro completed loop
      rfl
  | cons input depths ih =>
      obtain ⟨piece, depth⟩ := input
      intro completed loop
      unfold SearchContext.searchDepths runUntil
      cases hstep : context.searchDepth depth piece loop.progress with
      | error error =>
          have hadvance : context.advance checkpointEnabled depth piece loop =
              .error error := by
            unfold SearchContext.advance
            rw [hstep]
            rfl
          have hreport : context.depthStep (piece, depth) loop.progress =
              .error error := by
            unfold SearchContext.depthStep
            rw [hstep]
            rfl
          rw [hadvance, hreport]
          rfl
      | ok next =>
          obtain ⟨progress, ledger⟩ := next
          have hadvance : context.advance checkpointEnabled depth piece loop =
              .ok ⟨progress,
                loop.accounts.record checkpointEnabled ledger progress.beam⟩ := by
            unfold SearchContext.advance
            rw [hstep]
            rfl
          have hreport : context.depthStep (piece, depth) loop.progress =
              .ok (progress, ledger, hasNoSkipState progress.beam) := by
            unfold SearchContext.depthStep
            rw [hstep]
            rfl
          rw [hadvance, hreport]
          dsimp only
          by_cases hspent : progress.spent = true
          · rw [if_pos hspent, if_pos (show progress.beam.isEmpty = true from hspent)]
            rfl
          · rw [if_neg hspent, if_neg (show ¬progress.beam.isEmpty = true from hspent)]
            by_cases hpause : context.pauses maximumDepthBoundaries (completed + 1)
                (piece, depth) = true
            · rw [if_pos hpause]
              exact if_pos hpause
            · rw [if_neg hpause]
              refine (if_neg hpause).trans ?_
              rw [ih]
              cases runUntil context.depthStep SearchProgress.spent _ depths
                  (completed + 1) progress with
              | error error => rfl
              | ok ended => exact congrArg Except.ok (loopOutcome_prepend
                  checkpointEnabled loop.accounts (ledger, hasNoSkipState progress.beam)
                  ended).symm

/-! ## §2  What the reports add up to -/

namespace SearchAccounts

/-- What a checkpoint saves of the accounts. -/
def saved (accounts : SearchAccounts) :
    List IntrinsicAnytimeDepthBudgetLedger × IntrinsicAnytimeNoSkipFrontierState :=
  (accounts.perDepthBudgetLedgers, accounts.noSkipFrontier)

theorem recordReports_append (checkpointEnabled : Bool) (accounts : SearchAccounts)
    (reports more : List DepthReport) :
    accounts.recordReports checkpointEnabled (reports ++ more) =
      (accounts.recordReports checkpointEnabled reports).recordReports checkpointEnabled
        more := List.foldl_append

/-- The search settles by the evaluation cap when some depth exhausted its
quota. -/
theorem settlement_recordReports (checkpointEnabled : Bool)
    (reports : List DepthReport) :
    ∀ accounts : SearchAccounts,
      (accounts.recordReports checkpointEnabled reports).settlement =
        if reports.any fun report => report.1.quotaExhausted then .evaluationCap
        else accounts.settlement := by
  induction reports with
  | nil =>
      intro accounts
      rfl
  | cons report reports ih =>
      intro accounts
      have hone : (accounts.recordReport checkpointEnabled report).settlement =
          if report.1.quotaExhausted then .evaluationCap else accounts.settlement := by
        cases checkpointEnabled <;> rfl
      refine (ih _).trans ?_
      rw [hone, List.any_cons]
      cases report.1.quotaExhausted with
      | false => rw [Bool.false_or, if_neg Bool.false_ne_true]
      | true => rw [Bool.true_or, if_pos rfl, ite_self]

/-- What is saved does not depend on the settlement. -/
theorem saved_recordReports_congr (checkpointEnabled : Bool)
    (reports : List DepthReport) :
    ∀ accounts other : SearchAccounts, accounts.saved = other.saved →
      (accounts.recordReports checkpointEnabled reports).saved =
        (other.recordReports checkpointEnabled reports).saved := by
  induction reports with
  | nil =>
      intro accounts other h
      exact h
  | cons report reports ih =>
      intro accounts other h
      refine ih _ _ ?_
      obtain ⟨hledgers, hnoSkip⟩ := Prod.mk.inj h
      cases checkpointEnabled with
      | false => exact h
      | true =>
          show (_, _) = (_, _)
          simp only [recordReport, if_true, hledgers, hnoSkip]

end SearchAccounts

/-! ## §3  Progress up to the cache -/

/-- The same progress, with caches that no state tells apart. -/
structure SearchProgress.Alike (authority : LayoutAuthority heap)
    (first second : SearchProgress heap) : Prop where
  beam : first.beam = second.beam
  counters : first.counters = second.counters
  consumed : first.consumedPlacementEvaluations = second.consumedPlacementEvaluations
  cache : CavityCachesAgree authority first.cavityCache second.cavityCache

/-- Progress at the start of a depth: the keys of the beam are right, and every
depth before took at most its quota. -/
structure SearchProgress.AtDepth (progress : SearchProgress heap) (depth : ℕ) : Prop where
  keys : ∀ entry ∈ progress.beam, entry.KeyRight
  consumed : progress.consumedPlacementEvaluations ≤ depth * depthQuota

/-- The total cap leaves room for the quota of every depth. -/
theorem SearchProgress.AtDepth.room {progress : SearchProgress heap} {depth : ℕ}
    (h : progress.AtDepth depth) {input : ColdSearchInput heap}
    (hdepth : depth < input.preparedPieces.length) :
    progress.consumedPlacementEvaluations + depthQuota ≤
      input.placementEvaluationCap := by
  have hquota : (depth + 1) * depthQuota ≤ input.preparedPieces.length * depthQuota :=
    Nat.mul_le_mul_right _ hdepth
  have hcap : input.preparedPieces.length * depthQuota ≤ input.placementEvaluationCap :=
    Nat.le_max_right _ _
  have := h.consumed
  rw [Nat.succ_mul] at hquota
  omega

theorem skipSuccessor_keyRight {context : DepthContext heap} {entry : CapacityEntry heap}
    (h : entry.KeyRight) : (context.skipSuccessor entry).KeyRight := h

theorem DepthContext.Successor.keyRight {context : DepthContext heap}
    {entry successor : CapacityEntry heap} (h : context.Successor entry successor)
    (hentry : entry.KeyRight) : successor.KeyRight := by
  cases h with
  | skip => exact skipSuccessor_keyRight hentry
  | place reference gridSpan anchoredOccupiedKey hspan hkey => exact hkey

theorem SearchProgress.AtDepth.step {context : SearchContext heap} {depth : ℕ}
    {piece : IrregularPreparedPiece F} {progress next : SearchProgress heap}
    {ledger : IntrinsicAnytimeDepthBudgetLedger} (h : progress.AtDepth depth)
    (hdepth : depth < context.input.preparedPieces.length)
    (hstep : context.searchDepth depth piece progress = .ok (next, ledger)) :
    next.AtDepth (depth + 1) where
  keys := by
    intro entry hentry
    obtain ⟨pieceMaterial, -, parent, hparent, successor, cavities, hmade, rfl⟩ :=
      SearchContext.searchDepth_beam (h.room hdepth) hstep hentry
    exact hmade.keyRight (h.keys parent hparent)
  consumed := by
    obtain ⟨hledger, hconsumed⟩ :=
      SearchContext.searchDepth_ledger (h.room hdepth) hstep
    have := h.consumed
    rw [hconsumed, hledger, Nat.succ_mul]
    exact Nat.add_le_add this (Nat.min_le_left _ _)

/-- **A depth does not see which of two alike progresses it starts from.** -/
theorem SearchProgress.Alike.step {context : SearchContext heap} {depth : ℕ}
    {piece : IrregularPreparedPiece F} {progress other next : SearchProgress heap}
    {ledger : IntrinsicAnytimeDepthBudgetLedger}
    (h : progress.Alike context.subsystems.toLayoutAuthority other)
    (hdepthInv : progress.AtDepth depth)
    (hdepth : depth < context.input.preparedPieces.length)
    (hstep : context.searchDepth depth piece progress = .ok (next, ledger)) :
    ∃ next', context.searchDepth depth piece other = .ok (next', ledger) ∧
      next.Alike context.subsystems.toLayoutAuthority next' := by
  rw [SearchContext.searchDepth_eq] at hstep
  obtain ⟨expansion, hexpansion, heq⟩ := map_eq_ok hstep
  cases heq
  obtain ⟨pieceMaterial, hmaterial, hinv⟩ :=
    SearchContext.expandDepth_ok (hdepthInv.room hdepth) hexpansion
  have hkeys : ∀ entry ∈ (context.survivors depth expansion).1, entry.KeyRight := by
    intro entry hentry
    obtain ⟨parent, hparent, hmade⟩ :=
      hinv.successors entry (mem_pruneSuccessors hentry)
    exact hmade.keyRight (hdepthInv.keys parent hparent)
  refine ⟨context.retainDepth depth other.cavityCache expansion, ?_, ?_⟩
  · rw [SearchContext.searchDepth_eq, ← h.beam, ← h.counters, ← h.consumed, hexpansion]
    rfl
  · obtain ⟨hbeam, hcounters, hcaches⟩ := h.cache.measureSurvivors
      (context.survivors depth expansion).2 hkeys
    rw [SearchContext.retainDepth_eq, SearchContext.retainDepth_eq]
    unfold SearchContext.measured
    rw [hbeam, hcounters]
    exact ⟨rfl, rfl, rfl, hcaches⟩

/-- The first depth of the pieces from a depth on is that depth. -/
theorem depthsFrom_cons {input : ColdSearchInput heap} {startDepth depth : ℕ}
    {piece : IrregularPreparedPiece F} {rest : List (IrregularPreparedPiece F × ℕ)}
    (h : (piece, depth) :: rest = input.depthsFrom startDepth) :
    depth = startDepth ∧ rest = input.depthsFrom (startDepth + 1) ∧
      startDepth < input.preparedPieces.length ∧
      input.preparedPieces[startDepth]? = some piece := by
  unfold ColdSearchInput.depthsFrom at h ⊢
  have hlength : startDepth < input.preparedPieces.length := by
    have := congrArg List.length h
    rw [List.length_cons, List.length_drop, List.length_zipIdx] at this
    omega
  rw [List.drop_eq_getElem_cons (by rwa [List.length_zipIdx]), List.getElem_zipIdx] at h
  obtain ⟨hhead, hrest⟩ := List.cons.inj h
  obtain ⟨hpiece, hdepth⟩ := Prod.mk.inj hhead
  refine ⟨by omega, hrest, hlength, ?_⟩
  rw [List.getElem?_eq_getElem hlength, hpiece]

/-- Alike progresses at the first of the depths left. -/
def Aligned (context : SearchContext heap)
    (inputs : List (IrregularPreparedPiece F × ℕ))
    (first second : SearchProgress heap) : Prop :=
  ∃ depth, inputs = context.input.depthsFrom depth ∧ first.AtDepth depth ∧
    first.Alike context.subsystems.toLayoutAuthority second

theorem Aligned.step {context : SearchContext heap}
    (input : IrregularPreparedPiece F × ℕ)
    (inputs : List (IrregularPreparedPiece F × ℕ))
    (first second next : SearchProgress heap) (report : DepthReport)
    (h : Aligned context (input :: inputs) first second)
    (hstep : context.depthStep input first = .ok (next, report)) :
    ∃ next', context.depthStep input second = .ok (next', report) ∧
      Aligned context inputs next next' := by
  obtain ⟨piece, depth⟩ := input
  obtain ⟨start, hinputs, hdepthInv, halike⟩ := h
  obtain ⟨rfl, rfl, hdepth, -⟩ := depthsFrom_cons hinputs
  obtain ⟨⟨progress, ledger⟩, hsearch, heq⟩ := map_eq_ok hstep
  cases heq
  obtain ⟨next', hnext', halike'⟩ := halike.step hdepthInv hdepth hsearch
  refine ⟨next', ?_, depth + 1, rfl, hdepthInv.step hdepth hsearch, halike'⟩
  show (context.searchDepth depth piece second).map _ = _
  rw [hnext', halike'.beam]
  rfl

theorem Aligned.spent {context : SearchContext heap}
    (inputs : List (IrregularPreparedPiece F × ℕ)) (first second : SearchProgress heap)
    (h : Aligned context inputs first second) : first.spent = second.spent := by
  obtain ⟨depth, -, -, halike⟩ := h
  unfold SearchProgress.spent
  rw [halike.beam]

/-! ## §4  The start of a lane -/

/-- The cache knows the cavities of the warm prefix, so that a call that
validates it again measures nothing. -/
def WarmKnown (input : ColdSearchInput heap)
    (cache : IntrinsicCapacityCavityCache F) : Prop :=
  ∀ seed ∈ input.warmPrefixSeed, seed.state.placedCollisionGeometries ≠ [] →
    ∀ key, seed.state.bottomLeftAnchoredCanonicalOccupiedGeometryKey = some key →
      (cache.lookup key).isSome

/-- The warm prefix is measured under the key of its state. -/
theorem CavityCachesAgree.measureState {authority : LayoutAuthority heap}
    {first second : IntrinsicCapacityCavityCache F}
    (h : CavityCachesAgree authority first second) (state : CapacityState heap) :
    (measureIntrinsicCapacityCavities authority state first).1 =
        (measureIntrinsicCapacityCavities authority state second).1 ∧
      CavityCachesAgree authority
        (measureIntrinsicCapacityCavities authority state first).2
        (measureIntrinsicCapacityCavities authority state second).2 := by
  unfold measureIntrinsicCapacityCavities
  split
  · next hempty =>
    unfold measureIntrinsicCapacityCavitiesWithKey
    rw [hempty]
    exact ⟨rfl, h⟩
  · split
    · exact ⟨rfl, h⟩
    · next key hkey => exact h.measure hkey

/-- After a measurement that succeeds, measuring again changes nothing. -/
theorem measureState_again {authority : LayoutAuthority heap}
    {state : CapacityState heap} {cache cache' : IntrinsicCapacityCavityCache F}
    {cavities : IntrinsicCapacityCavityMetrics F}
    (h : measureIntrinsicCapacityCavities authority state cache =
      (some cavities, cache'))
    (hplaced : state.placedCollisionGeometries ≠ []) {key : String}
    (hkey : state.bottomLeftAnchoredCanonicalOccupiedGeometryKey = some key) :
    (cache'.lookup key).isSome := by
  have hempty : ¬state.placedCollisionGeometries.isEmpty = true := by
    rwa [List.isEmpty_iff]
  unfold measureIntrinsicCapacityCavities at h
  rw [if_neg hempty, hkey] at h
  dsimp only at h
  have hrecall := measureCavities_fst authority state key cache
  rw [h, if_neg hempty] at hrecall
  have hlookup := lookup_measureCavities hplaced hrecall.symm key
  rw [h, if_pos rfl] at hlookup
  exact Option.isSome_iff_exists.mpr ⟨cavities, hlookup⟩

/-- A state that the cache knows leaves it unchanged. -/
theorem measureState_known (authority : LayoutAuthority heap)
    {state : CapacityState heap} {cache : IntrinsicCapacityCavityCache F}
    (h : state.placedCollisionGeometries ≠ [] → ∀ key,
      state.bottomLeftAnchoredCanonicalOccupiedGeometryKey = some key →
      (cache.lookup key).isSome) :
    (measureIntrinsicCapacityCavities authority state cache).2 = cache := by
  unfold measureIntrinsicCapacityCavities
  split
  · next hempty =>
    unfold measureIntrinsicCapacityCavitiesWithKey
    rw [hempty]
    rfl
  · next hempty =>
    split
    · rfl
    · next key hkey =>
      obtain ⟨cavities, hlookup⟩ := Option.isSome_iff_exists.mp
        (h (by rwa [List.isEmpty_iff] at hempty) key hkey)
      unfold measureIntrinsicCapacityCavitiesWithKey
      rw [if_neg hempty, hlookup]

/-- **Validation of a warm prefix**: it stops before the measurement, or is the
measurement of the state. -/
theorem validateWarmPrefixSeed_cases (context : SearchContext heap)
    (seed : IntrinsicCapacityWarmPrefixSeed heap) :
    (∃ message, ∀ cache,
      validateWarmPrefixSeed context seed cache = (.error message, cache)) ∨
    ∃ material key gridSpan,
      seed.state.bottomLeftAnchoredCanonicalOccupiedGeometryKey = some key ∧
      intrinsicCapacityStateGridSpan seed.state = some gridSpan ∧
      seed.state.unplacedPieceIds = [] ∧
      seed.state.placementOrder = context.input.preparedIds.take seed.depth ∧
      seed.state.remainingPreparedPieces.map intrinsicCapacityPreparedPieceId =
        context.input.preparedIds.drop seed.depth ∧
      seed.depth < context.input.preparedIds.length ∧
      material = (sumMaterialAreas (context.input.preparedIds.take seed.depth)
        context.input.materialAreasByPieceId).getD 0 ∧
      (∀ pieceId ∈ context.input.preparedIds.take seed.depth,
        (context.input.materialAreasByPieceId pieceId).isSome) ∧
      ∀ cache, validateWarmPrefixSeed context seed cache =
        match measureIntrinsicCapacityCavities context.subsystems.toLayoutAuthority
            seed.state cache with
        | (none, cache) => (.error "warm prefix cavity measurement failed.", cache)
        | (some cavities, cache) =>
            (.ok ⟨seed.state, material, key, gridSpan, cavities⟩, cache) := by
  unfold validateWarmPrefixSeed
  dsimp only
  split
  · exact .inl ⟨_, fun _ => rfl⟩
  · next hdepth =>
    split
    · exact .inl ⟨_, fun _ => rfl⟩
    · next hprefix =>
      simp only [not_or, not_not] at hprefix
      obtain ⟨hunplaced, horder, hremaining⟩ := hprefix
      split
      · exact .inl ⟨_, fun _ => rfl⟩
      · next hareas =>
        split
        · exact .inl ⟨_, fun _ => rfl⟩
        · next gridSpan hspan =>
          split
          · exact .inl ⟨_, fun _ => rfl⟩
          · split
            · exact .inl ⟨_, fun _ => rfl⟩
            · next key hkey =>
              refine .inr ⟨_, key, gridSpan, hkey, hspan, hunplaced, horder, hremaining,
                ?_, rfl, ?_, fun cache => rfl⟩
              · simp only [Bool.or_eq_true, decide_eq_true_eq, not_or] at hdepth
                exact Nat.lt_of_not_le hdepth.2
              · intro pieceId hmem
                have := List.find?_eq_none.mp hareas pieceId hmem
                rwa [Bool.not_eq_true, Option.isNone_eq_false_iff] at this

/-- How a lane starts: with the empty state, or with a warm prefix that is the
exact skip-free beginning of the prepared order. -/
inductive LaneStarts (context : SearchContext heap)
    (cache : IntrinsicCapacityCavityCache F) :
    LaneStart heap → IntrinsicCapacityCavityCache F → Prop
  | cold (gridSpan : IntrinsicCapacityGridSpan)
      (hseed : context.input.warmPrefixSeed = none)
      (hspan : intrinsicCapacityStateGridSpan
        (IrregularBeamState.empty context.input.preparedPieces : CapacityState heap) =
        some gridSpan) :
      LaneStarts context cache
        ⟨0, ⟨IrregularBeamState.empty context.input.preparedPieces, 0,
          (IrregularBeamState.empty context.input.preparedPieces :
            CapacityState heap).canonicalOccupiedGeometryKey,
          gridSpan, noCavities⟩⟩ cache
  | warm (seed : IntrinsicCapacityWarmPrefixSeed heap) (key : String)
      (gridSpan : IntrinsicCapacityGridSpan)
      (cavities : IntrinsicCapacityCavityMetrics F)
      (cache' : IntrinsicCapacityCavityCache F)
      (hseed : context.input.warmPrefixSeed = some seed)
      (hkey : seed.state.bottomLeftAnchoredCanonicalOccupiedGeometryKey = some key)
      (hspan : intrinsicCapacityStateGridSpan seed.state = some gridSpan)
      (hunplaced : seed.state.unplacedPieceIds = [])
      (horder : seed.state.placementOrder = context.input.preparedIds.take seed.depth)
      (hremaining :
        seed.state.remainingPreparedPieces.map intrinsicCapacityPreparedPieceId =
          context.input.preparedIds.drop seed.depth)
      (hdepth : seed.depth < context.input.preparedIds.length)
      (hareas : ∀ pieceId ∈ context.input.preparedIds.take seed.depth,
        (context.input.materialAreasByPieceId pieceId).isSome)
      (hmeasure : measureIntrinsicCapacityCavities context.subsystems.toLayoutAuthority
        seed.state cache = (some cavities, cache')) :
      LaneStarts context cache
        ⟨seed.depth, ⟨seed.state,
          (sumMaterialAreas (context.input.preparedIds.take seed.depth)
            context.input.materialAreasByPieceId).getD 0, key, gridSpan, cavities⟩⟩ cache'

theorem laneStart_ok {context : SearchContext heap} {start : LaneStart heap}
    {cache cache' : IntrinsicCapacityCavityCache F}
    (h : laneStart context cache = (.ok start, cache')) :
    LaneStarts context cache start cache' := by
  unfold laneStart at h
  cases hseed : context.input.warmPrefixSeed with
  | none =>
      rw [hseed] at h
      dsimp only at h
      split at h
      · cases h
      · next gridSpan hspan =>
        cases h
        exact .cold gridSpan hseed hspan
  | some seed =>
      rw [hseed] at h
      dsimp only at h
      rcases validateWarmPrefixSeed_cases context seed with ⟨message, hvalid⟩ |
        ⟨material, key, gridSpan, hkey, hspan, hunplaced, horder, hremaining, hdepth,
          rfl, hareas, hvalid⟩
      · rw [hvalid] at h
        cases h
      · rw [hvalid] at h
        rcases hmeasure : measureIntrinsicCapacityCavities
          context.subsystems.toLayoutAuthority seed.state cache with ⟨result, cache₁⟩
        rw [hmeasure] at h
        cases result with
        | none => cases h
        | some cavities =>
            cases h
            exact .warm seed key gridSpan cavities _ hseed hkey hspan hunplaced horder
              hremaining hdepth hareas hmeasure

/-- **The start of a lane does not depend on the cache**, up to agreement. -/
theorem CavityCachesAgree.laneStart {context : SearchContext heap}
    {first second : IntrinsicCapacityCavityCache F}
    (h : CavityCachesAgree context.subsystems.toLayoutAuthority first second) :
    (laneStart context first).1 = (laneStart context second).1 ∧
      CavityCachesAgree context.subsystems.toLayoutAuthority
        (laneStart context first).2 (laneStart context second).2 := by
  unfold PolygonNesting.laneStart
  cases context.input.warmPrefixSeed with
  | none =>
      dsimp only
      split
      · exact ⟨rfl, h⟩
      · exact ⟨rfl, h⟩
  | some seed =>
      dsimp only
      rcases validateWarmPrefixSeed_cases context seed with ⟨message, hvalid⟩ |
        ⟨material, key, gridSpan, -, -, -, -, -, -, -, -, hvalid⟩
      · rw [hvalid, hvalid]
        exact ⟨rfl, h⟩
      · obtain ⟨hresult, hcaches⟩ := h.measureState seed.state
        rw [hvalid, hvalid]
        rcases hfirst : measureIntrinsicCapacityCavities
          context.subsystems.toLayoutAuthority seed.state first with ⟨result, first'⟩
        rcases hsecond : measureIntrinsicCapacityCavities
          context.subsystems.toLayoutAuthority seed.state second with ⟨result', second'⟩
        rw [hfirst, hsecond] at hresult hcaches
        obtain rfl : result = result' := hresult
        cases result with
        | none => exact ⟨rfl, hcaches⟩
        | some cavities => exact ⟨rfl, hcaches⟩

theorem LaneStarts.warmKnown {context : SearchContext heap} {start : LaneStart heap}
    {cache cache' : IntrinsicCapacityCavityCache F}
    (h : LaneStarts context cache start cache') : WarmKnown context.input cache' := by
  intro seed hseed hplaced key hkey
  cases h with
  | cold gridSpan hnone => rw [hnone] at hseed; cases hseed
  | warm seed' key' gridSpan cavities _ hseed' _ _ _ _ _ _ _ hmeasure =>
      obtain rfl := Option.some.inj (hseed'.symm.trans hseed)
      exact measureState_again hmeasure hplaced hkey

/-- A lane that starts again over a cache that knows its prefix leaves the
cache. -/
theorem WarmKnown.laneStart {context : SearchContext heap}
    {cache : IntrinsicCapacityCavityCache F} (h : WarmKnown context.input cache) :
    (laneStart context cache).2 = cache := by
  unfold PolygonNesting.laneStart
  cases hseed : context.input.warmPrefixSeed with
  | none =>
      dsimp only
      split <;> rfl
  | some seed =>
      dsimp only
      have hknown := measureState_known context.subsystems.toLayoutAuthority
        (h seed hseed)
      rcases validateWarmPrefixSeed_cases context seed with ⟨message, hvalid⟩ |
        ⟨material, key, gridSpan, -, -, -, -, -, -, -, -, hvalid⟩
      · rw [hvalid]
      · rw [hvalid]
        rcases hmeasure : measureIntrinsicCapacityCavities
          context.subsystems.toLayoutAuthority seed.state cache with ⟨result, cache'⟩
        rw [hmeasure] at hknown
        cases result <;> exact hknown

/-- The anchored key of the empty state is its own key. -/
theorem empty_keyRight (pieces : List (IrregularPreparedPiece F)) :
    (IrregularBeamState.empty pieces :
        CapacityState heap).bottomLeftAnchoredCanonicalOccupiedGeometryKey =
      some (IrregularBeamState.empty pieces :
        CapacityState heap).canonicalOccupiedGeometryKey := by
  show (if (0 : F) = 0 ∧ (0 : F) = 0 then _ else _) = _
  rw [if_pos ⟨rfl, rfl⟩]

theorem LaneStarts.keyRight {context : SearchContext heap} {start : LaneStart heap}
    {cache cache' : IntrinsicCapacityCavityCache F}
    (h : LaneStarts context cache start cache') : start.entry.KeyRight := by
  cases h with
  | cold gridSpan hseed hspan => exact empty_keyRight _
  | warm seed key gridSpan cavities _ _ hkey => exact hkey

/-- A fresh lane stands at its first depth. -/
theorem LaneStarts.atDepth {context : SearchContext heap} {start : LaneStart heap}
    {cache cache' : IntrinsicCapacityCavityCache F}
    (h : LaneStarts context cache start cache') :
    (freshLoop start cache').progress.AtDepth start.initialDepth where
  keys := by
    intro entry hentry
    rw [List.mem_singleton.mp hentry]
    exact h.keyRight
  consumed := Nat.zero_le _

/-- What a depth learns stays known. -/
theorem WarmKnown.step {context : SearchContext heap} {depth : ℕ}
    {piece : IrregularPreparedPiece F} {progress next : SearchProgress heap}
    {ledger : IntrinsicAnytimeDepthBudgetLedger}
    (h : WarmKnown context.input progress.cavityCache)
    (hstep : context.searchDepth depth piece progress = .ok (next, ledger)) :
    WarmKnown context.input next.cavityCache := by
  rw [SearchContext.searchDepth_eq] at hstep
  obtain ⟨expansion, -, heq⟩ := map_eq_ok hstep
  cases heq
  intro seed hseed hplaced key hkey
  rw [SearchContext.retainDepth_eq]
  exact isSome_lookup_measureSurvivors (h seed hseed hplaced key hkey)

end PolygonNesting
