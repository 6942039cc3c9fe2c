import PolygonNesting.Capacity.SelfValid

set_option linter.unusedSectionVars false

/-!
# What one call of the search costs

The laws that the lanes of the coordinator share: a call never goes back, its depths
cost at most their quotas, a pause leaves a checkpoint that agrees with the trace, and
a call without a limit settles.  They hold for every checkpoint whose consumption is
within the quotas of its depths.
-/

namespace PolygonNesting

open ResumableLoop

variable {F : Type} [LinearOrder F] [Zero F] [One F] [Add F] [Sub F] [Neg F]
  [Mul F] [Div F] [JsMath F] {heap : ℕ → IrregularPlacedPiece F}

/-! ## §1  Along one call -/

/-- Where a loop stands that started at a depth with a consumption. -/
structure SpentSince (pieces startDepth startConsumed depth : ℕ)
    (progress : SearchProgress heap) : Prop where
  forward : startDepth ≤ depth
  depths : depth ≤ pieces
  completed : progress.counters.completedDepths = depth
  quotas : progress.consumedPlacementEvaluations ≤ depth * depthQuota
  grows : startConsumed ≤ progress.consumedPlacementEvaluations
  cost : progress.consumedPlacementEvaluations ≤
    startConsumed + (depth - startDepth) * depthQuota

theorem SpentSince.step {startDepth startConsumed depth : ℕ} {subsystems : SearchSubsystems heap}
    {input : ColdSearchInput heap} {context : SearchContext heap} {recorded : Bool}
    {piece : IrregularPreparedPiece F} {loop next : SearchLoop heap}
    (h : SpentSince input.preparedPieces.length startDepth startConsumed depth loop.progress)
    (hcontext : makeSearchContext subsystems input = .ok context)
    (hpiece : input.preparedPieces[depth]? = some piece)
    (hadvance : context.advance recorded depth piece loop = .ok next) :
    SpentSince input.preparedPieces.length startDepth startConsumed (depth + 1)
      next.progress := by
  obtain ⟨ledger, hsearch, -⟩ := advance_ok hadvance
  obtain ⟨-, rfl, -⟩ := makeSearchContext_ok hcontext
  have hroom := room_of_consumed_le h.quotas hpiece
  obtain ⟨hledger, hconsumed⟩ := SearchContext.searchDepth_ledger hroom hsearch
  obtain ⟨-, -, hcompleted, -⟩ := SearchContext.searchDepth_counters hroom hsearch
  have hquota : ledger.consumedPlacementEvaluations ≤ depthQuota := by
    rw [hledger]
    exact Nat.min_le_left _ _
  have hdepths : depth + 1 - startDepth = (depth - startDepth) + 1 := by
    have := h.forward
    omega
  obtain ⟨hdepth, -⟩ := List.getElem?_eq_some_iff.mp hpiece
  refine ⟨Nat.le_succ_of_le h.forward, hdepth, hcompleted, ?_, ?_, ?_⟩
  · rw [hconsumed, Nat.succ_mul]
    exact Nat.add_le_add h.quotas hquota
  · rw [hconsumed]
    exact Nat.le_add_right_of_le h.grows
  · rw [hconsumed, hdepths, Nat.succ_mul, ← Nat.add_assoc]
    exact Nat.add_le_add h.cost hquota

/-- A limit of one depth boundary ends the call within one depth. -/
theorem searchDepths_one {context : SearchContext heap} {recorded : Bool}
    {depths : List (IrregularPreparedPiece F × ℕ)} {depth : ℕ} {loop : SearchLoop heap}
    {outcome : LoopOutcome heap} {P : ℕ → SearchLoop heap → Prop}
    (hstep : ∀ depth piece loop next, P depth loop →
      context.input.preparedPieces[depth]? = some piece →
      context.advance recorded depth piece loop = .ok next → P (depth + 1) next)
    (hdepths : depths = context.input.depthsFrom depth) (hstart : P depth loop)
    (h : context.searchDepths recorded (some 1) depths 0 loop = .ok outcome) :
    (∀ last, outcome = .finished last → ∃ depth', depth' ≤ depth + 1 ∧ P depth' last) ∧
      ∀ nextDepth last, outcome = .paused nextDepth last →
        nextDepth = depth + 1 ∧ P nextDepth last := by
  have hfinished : ∀ {depth' : ℕ} {loop' : SearchLoop heap}, outcome = .finished loop' →
      depth' ≤ depth + 1 → P depth' loop' →
      (∀ last, outcome = .finished last → ∃ depth', depth' ≤ depth + 1 ∧ P depth' last) ∧
        ∀ nextDepth last, outcome = .paused nextDepth last →
          nextDepth = depth + 1 ∧ P nextDepth last := by
    rintro depth' loop' rfl hdepth hloop
    constructor
    · rintro last heq
      cases heq
      exact ⟨depth', hdepth, hloop⟩
    · intro nextDepth last heq
      cases heq
  cases depths with
  | nil =>
      cases h
      exact hfinished rfl (Nat.le_succ _) hstart
  | cons first depths =>
      obtain ⟨piece, depth'⟩ := first
      obtain ⟨rfl, hrest, -, hpiece⟩ := depthsFrom_cons hdepths
      unfold SearchContext.searchDepths at h
      split at h
      · cases h
      · next next hadvance =>
        have hnext := hstep _ piece _ next hstart hpiece hadvance
        split at h
        · cases h
          exact hfinished rfl le_rfl hnext
        · split at h
          · cases h
            constructor
            · intro last heq
              cases heq
            · intro nextDepth last heq
              cases heq
              exact ⟨rfl, hnext⟩
          · next hpause =>
            -- the limit is met, so no depth is left
            have hlast : ¬ depth' + 1 < context.input.preparedPieces.length := by
              intro hroom
              exact hpause (by simp [hroom])
            have hnil : depths = [] := by
              rw [hrest]
              unfold ColdSearchInput.depthsFrom
              rw [List.drop_eq_nil_iff, List.length_zipIdx]
              omega
            rw [hnil] at h
            cases h
            exact hfinished rfl le_rfl hnext

/-! ## §2  What a call returns -/

/-- A checkpoint whose counts agree with its depth. -/
structure CheckpointInBudget (pieces : ℕ) (checkpoint : IntrinsicAnytimeCheckpoint heap) :
    Prop where
  depths : checkpoint.nextDepth ≤ pieces
  completed : checkpoint.counters.completedDepths = checkpoint.nextDepth
  quotas : checkpoint.budgetLedgers.totalConsumedPlacementEvaluations ≤
    checkpoint.nextDepth * depthQuota

/-- A result whose checkpoint, if it is paused, agrees with its trace. -/
structure LawfulResult (pieces : ℕ) (result : IntrinsicCapacitySearchResult heap) : Prop where
  depths : result.trace.completedDepths ≤ pieces
  quotas : result.trace.consumedPlacementEvaluations ≤
    result.trace.completedDepths * depthQuota
  settled : result.status = .settled → result.checkpoint = none
  paused : result.status = .paused → ∃ checkpoint, result.checkpoint = some checkpoint ∧
    CheckpointInBudget pieces checkpoint ∧
    checkpoint.nextDepth = result.trace.completedDepths ∧
    checkpoint.budgetLedgers.totalConsumedPlacementEvaluations =
      result.trace.consumedPlacementEvaluations ∧
    result.trace.completedDepths < pieces

/-- The consumption a call starts from. -/
def SearchCall.startConsumed (call : SearchCall heap) : ℕ :=
  match call.checkpoint with
  | none => 0
  | some checkpoint => checkpoint.budgetLedgers.totalConsumedPlacementEvaluations

/-- What a call adds to a lane. -/
structure QuantumLaw (input : ColdSearchInput heap) (call : SearchCall heap)
    (result : IntrinsicCapacitySearchResult heap) : Prop where
  lawful : LawfulResult input.preparedPieces.length result
  forward : call.startDepth input ≤ result.trace.completedDepths
  grows : call.startConsumed ≤ result.trace.consumedPlacementEvaluations
  one : call.maximumDepthBoundaries = some 1 →
    result.trace.consumedPlacementEvaluations ≤ call.startConsumed + depthQuota ∧
      (result.status = .paused → result.trace.completedDepths = call.startDepth input + 1)
  unlimited : call.maximumDepthBoundaries = none → result.status = .settled

theorem SearchCall.spentSince_start {call : SearchCall heap} {input : ColdSearchInput heap}
    {context : SearchContext heap} {start : LaneStart heap}
    {cache cache' : IntrinsicCapacityCavityCache F}
    (hbudget : ∀ checkpoint ∈ call.checkpoint,
      CheckpointInBudget input.preparedPieces.length checkpoint)
    (hinput : context.input = input) (hstart : LaneStarts context cache start cache') :
    SpentSince input.preparedPieces.length (call.startDepth input) call.startConsumed
      (call.startDepth input) (call.startLoop start cache').progress := by
  have hinitial := hstart.initialDepth
  obtain ⟨checkpoint, limit⟩ := call
  cases checkpoint with
  | none =>
      have hdepths : input.initialDepth ≤ input.preparedPieces.length := by
        rw [← hinput, ← hinitial]
        cases hstart with
        | cold => exact Nat.zero_le _
        | warm seed key gridSpan cavities cache' _ _ _ _ _ _ hdepth =>
            rw [ColdSearchInput.preparedIds, List.length_map] at hdepth
            exact hdepth.le
      rw [hinput] at hinitial
      exact ⟨le_rfl, hdepths, hinitial, Nat.zero_le _, le_rfl, Nat.zero_le _⟩
  | some checkpoint =>
      have hcheckpoint := hbudget checkpoint rfl
      exact ⟨le_rfl, hcheckpoint.depths, hcheckpoint.completed, hcheckpoint.quotas, le_rfl,
        Nat.le_add_right _ _⟩

/-- The trace of a loop that ends a call. -/
theorem SearchCall.result_trace (call : SearchCall heap)
    (identities : CheckpointIdentities heap) {ended : CallOutcome heap}
    {result : IntrinsicCapacitySearchResult heap} {cache' : IntrinsicCapacityCavityCache F}
    (h : call.result identities ended = (result, cache')) :
    match ended.outcome with
    | .finished loop => result.status = .settled ∧ result.checkpoint = none ∧
        result.trace.completedDepths = loop.progress.counters.completedDepths ∧
        result.trace.consumedPlacementEvaluations = loop.progress.consumedPlacementEvaluations
    | .paused nextDepth loop => result.status = .paused ∧
        result.checkpoint = some (call.makeCheckpoint identities ended.context nextDepth loop) ∧
        result.trace.completedDepths = loop.progress.counters.completedDepths ∧
        result.trace.consumedPlacementEvaluations =
          loop.progress.consumedPlacementEvaluations := by
  unfold SearchCall.result at h
  obtain ⟨context, outcome⟩ := ended
  cases outcome with
  | finished loop =>
      obtain ⟨rfl, -⟩ := Prod.mk.inj h
      exact ⟨rfl, rfl, rfl, rfl⟩
  | paused nextDepth loop =>
      obtain ⟨rfl, -⟩ := Prod.mk.inj h
      exact ⟨rfl, rfl, rfl, rfl⟩

/-- **The law of one call.** -/
theorem runIntrinsicCapacityColdSearch_law {subsystems : SearchSubsystems heap}
    {identities : CheckpointIdentities heap} {input : ColdSearchInput heap}
    {call : SearchCall heap} {cache cache' : IntrinsicCapacityCavityCache F}
    {result : IntrinsicCapacitySearchResult heap}
    (hbudget : ∀ checkpoint ∈ call.checkpoint,
      CheckpointInBudget input.preparedPieces.length checkpoint)
    (h : runIntrinsicCapacityColdSearch subsystems identities input call cache =
      .ok (result, cache')) :
    QuantumLaw input call result := by
  obtain ⟨ended, hrun, hresult⟩ := map_eq_ok h
  obtain ⟨start, cache₁, hcontext, hstart, -, hloop⟩ := SearchCall.run_ok hrun
  obtain ⟨-, hinput, -⟩ := makeSearchContext_ok hcontext
  have htrace := call.result_trace identities hresult
  have hfirst := call.spentSince_start hbudget hinput (laneStart_ok hstart)
  have hstep : ∀ depth piece loop next,
      SpentSince input.preparedPieces.length (call.startDepth input) call.startConsumed depth
        (SearchLoop.progress loop) →
      ended.context.input.preparedPieces[depth]? = some piece →
      ended.context.advance call.checkpointEnabled depth piece loop = .ok next →
      SpentSince input.preparedPieces.length (call.startDepth input) call.startConsumed
        (depth + 1) next.progress := by
    intro depth piece loop next hspent hpiece hadvance
    rw [hinput] at hpiece
    exact hspent.step hcontext hpiece hadvance
  have hend := searchDepths_inv hstep (by rw [hinput]) hfirst hloop
  have hone : call.maximumDepthBoundaries = some 1 →
      result.trace.consumedPlacementEvaluations ≤ call.startConsumed + depthQuota ∧
        (result.status = .paused →
          result.trace.completedDepths = call.startDepth input + 1) := by
    intro hlimit
    rw [hlimit] at hloop
    have hshort := searchDepths_one hstep (by rw [hinput]) hfirst hloop
    -- one depth costs at most its quota
    have hcost : ∀ {depth : ℕ} {last : SearchLoop heap}, depth ≤ call.startDepth input + 1 →
        SpentSince input.preparedPieces.length (call.startDepth input) call.startConsumed depth
          last.progress →
        last.progress.consumedPlacementEvaluations ≤ call.startConsumed + depthQuota := by
      intro depth last hdepth hspent
      have hdepths : depth - call.startDepth input ≤ 1 := by omega
      have hquota := Nat.mul_le_mul_right depthQuota hdepths
      have hspentCost := hspent.cost
      omega
    cases houtcome : ended.outcome with
    | finished last =>
        rw [houtcome] at htrace
        obtain ⟨hstatus, -, -, hconsumed⟩ := htrace
        obtain ⟨depth, hdepth, hspent⟩ := hshort.1 last houtcome
        rw [hconsumed, hstatus]
        exact ⟨hcost hdepth hspent, fun hpaused => by cases hpaused⟩
    | paused nextDepth last =>
        rw [houtcome] at htrace
        obtain ⟨-, -, hcompleted, hconsumed⟩ := htrace
        obtain ⟨hdepth, hspent⟩ := hshort.2 nextDepth last houtcome
        rw [hconsumed, hcompleted, hspent.completed]
        exact ⟨hcost hdepth.le hspent, fun _ => hdepth⟩
  cases houtcome : ended.outcome with
  | finished last =>
      rw [houtcome] at htrace hend
      obtain ⟨hstatus, hcheckpoint, hcompleted, hconsumed⟩ := htrace
      obtain ⟨depth, hspent, -⟩ := hend
      refine ⟨⟨?_, ?_, fun _ => hcheckpoint, ?_⟩, ?_, ?_, hone, fun _ => hstatus⟩
      · rw [hcompleted, hspent.completed]
        exact hspent.depths
      · rw [hconsumed, hcompleted, hspent.completed]
        exact hspent.quotas
      · intro hpaused
        rw [hstatus] at hpaused
        cases hpaused
      · rw [hcompleted, hspent.completed]
        exact hspent.forward
      · rw [hconsumed]
        exact hspent.grows
  | paused nextDepth last =>
      rw [houtcome] at htrace hend
      obtain ⟨hstatus, hcheckpoint, hcompleted, hconsumed⟩ := htrace
      obtain ⟨hspent, hroom, -, -, hlimit⟩ := hend
      rw [hinput] at hroom
      obtain ⟨-, hnext, hcounters, htotal, -⟩ :=
        makeCheckpoint_fields call identities ended.context nextDepth last
      refine ⟨⟨?_, ?_, ?_, fun _ => ⟨_, hcheckpoint, ⟨?_, ?_, ?_⟩, ?_, ?_, ?_⟩⟩, ?_, ?_, hone,
        ?_⟩
      · rw [hcompleted, hspent.completed]
        exact hspent.depths
      · rw [hconsumed, hcompleted, hspent.completed]
        exact hspent.quotas
      · intro hsettled
        rw [hstatus] at hsettled
        cases hsettled
      · rw [hnext]
        exact hspent.depths
      · rw [hcounters, hnext]
        exact hspent.completed
      · rw [htotal, hnext]
        exact hspent.quotas
      · rw [hnext, hcompleted, hspent.completed]
      · rw [htotal, hconsumed]
      · rw [hcompleted, hspent.completed]
        exact hroom
      · rw [hcompleted, hspent.completed]
        exact hspent.forward
      · rw [hconsumed]
        exact hspent.grows
      · intro hnone
        rw [hnone] at hlimit
        cases hlimit

end PolygonNesting
