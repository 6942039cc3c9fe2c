import PolygonNesting.Capacity.Pruning

set_option linter.unusedSectionVars false

/-!
# Emitted checkpoints are valid

The validator recomputes what the search maintains.  Each thing it recomputes is
an invariant of the depth loop: of every beam entry, of the counters, and of the
accounts of the depths, kept by one depth, by a pause and by a resume.

The cavities of an entry may come from the cache of the caller, while the
validator measures over an empty one.  The two agree where the cavities are a
function of the anchored key, which is what the cache is for.
-/

namespace PolygonNesting

open ResumableLoop

variable {F : Type} [LinearOrder F] [Zero F] [One F] [Add F] [Sub F] [Neg F]
  [Mul F] [Div F] [JsMath F] {heap : ℕ → IrregularPlacedPiece F}

/-! ## §1  Entries -/

/-- What the validator reads off an entry, less its cavities. -/
structure EntrySound (input : ColdSearchInput heap) (entry : CapacityEntry heap) :
    Prop where
  built : entry.state.Built
  material : entry.MaterialRight input
  span : intrinsicCapacityStateGridSpan entry.state = some entry.gridSpan
  key : entry.KeyRight

theorem EntrySound.successor {context : DepthContext heap}
    {entry successor : CapacityEntry heap} (h : EntrySound context.input entry)
    (hmaterial : context.input.materialAreasByPieceId
      (intrinsicCapacityPreparedPieceId context.piece) = some context.pieceMaterial)
    (hmade : context.Successor entry successor) :
    EntrySound context.input successor := by
  refine ⟨?_, hmade.materialRight h.material hmaterial, ?_, hmade.keyRight h.key⟩
  · cases hmade with
    | skip => exact h.built.withUnplacedPiece _ _
    | place reference gridSpan key hspan hkey => exact h.built.withPlacement _ _ _
  · cases hmade with
    | skip => exact h.span
    | place reference gridSpan key hspan hkey => exact hspan

/-- A successor that has placed nothing has the cavities of its parent. -/
theorem DepthContext.Successor.cavitiesRight {context : DepthContext heap}
    {authority : LayoutAuthority heap} {entry successor : CapacityEntry heap}
    (hmade : context.Successor entry successor)
    (h : entry.CavitiesRight authority) (hempty : successor.state.placementOrder = []) :
    successor.CavitiesRight authority := by
  cases hmade with
  | skip => exact h
  | place reference gridSpan key hspan hkey =>
      exact absurd hempty (List.append_ne_nil_of_right_ne_nil _ (List.cons_ne_nil _ _))

/-! ## §2  The beam -/

/-- The most that one depth counts. -/
def depthWork : ℕ := depthQuota + 2 * intrinsicCapacityV1Bounds.coldBeamWidth

/-- The invariant of the progress at a depth. -/
structure BeamSound (subsystems : SearchSubsystems heap) (input : ColdSearchInput heap)
    (depth : ℕ) (progress : SearchProgress heap) : Prop where
  entries : ∀ entry ∈ progress.beam, EntrySound input entry
  cavities : ∀ entry ∈ progress.beam, entry.CavitiesRight subsystems.toLayoutAuthority
  cache : HonestCavityCache subsystems.toLayoutAuthority progress.cavityCache
  width : progress.beam.length ≤ intrinsicCapacityV1Bounds.coldBeamWidth
  work : progress.counters.work ≤ depth * depthWork
  rejections : progress.counters.endpointFitRejections = 0
  completed : progress.counters.completedDepths = depth
  exhaustions : progress.counters.depthQuotaExhaustions ≤ depth

theorem LaneStarts.cavitiesRight {context : SearchContext heap} {start : LaneStart heap}
    {cache cache' : IntrinsicCapacityCavityCache F}
    (h : LaneStarts context cache start cache')
    (hkeyed : KeyedCavities context.subsystems.toLayoutAuthority)
    (hseed : ∀ seed ∈ context.input.warmPrefixSeed, seed.state.Built)
    (hcache : HonestCavityCache context.subsystems.toLayoutAuthority cache) :
    start.entry.CavitiesRight context.subsystems.toLayoutAuthority ∧
      HonestCavityCache context.subsystems.toLayoutAuthority cache' := by
  cases h with
  | cold gridSpan hnone hspan =>
      exact ⟨CapacityBeamEntry.cavitiesRight_of_empty rfl rfl, hcache⟩
  | warm seed key gridSpan cavities _ hsome hkey hspan hunplaced horder hremaining hdepth
      hareas hmeasure =>
      have hbuilt := hseed seed hsome
      unfold measureIntrinsicCapacityCavities at hmeasure
      by_cases hplaced : seed.state.placedCollisionGeometries = []
      · rw [if_pos (List.isEmpty_iff.mpr hplaced)] at hmeasure
        unfold measureIntrinsicCapacityCavitiesWithKey at hmeasure
        rw [if_pos (List.isEmpty_iff.mpr hplaced)] at hmeasure
        cases hmeasure
        exact ⟨CapacityBeamEntry.cavitiesRight_of_empty hplaced rfl, hcache⟩
      · have hfilled : ¬seed.state.placedCollisionGeometries.isEmpty = true := by
          rwa [List.isEmpty_iff]
        rw [if_neg hfilled, hkey] at hmeasure
        have hhonest := hcache.measure hkeyed hbuilt hkey
        have hresult := measureCavities_fst context.subsystems.toLayoutAuthority seed.state
          key cache
        dsimp only at hmeasure
        rw [hmeasure] at hhonest hresult
        rw [if_neg hfilled, hcache.recall hbuilt hplaced hkey] at hresult
        exact ⟨CapacityBeamEntry.cavitiesRight_of_measured hplaced hresult.symm,
          hhonest⟩

/-- **What a depth counts.** -/
theorem SearchContext.searchDepth_counters {context : SearchContext heap} {depth : ℕ}
    {piece : IrregularPreparedPiece F} {progress next : SearchProgress heap}
    {ledger : IntrinsicAnytimeDepthBudgetLedger}
    (hcap : progress.consumedPlacementEvaluations + depthQuota ≤
      context.input.placementEvaluationCap)
    (h : context.searchDepth depth piece progress = .ok (next, ledger)) :
    next.counters.work ≤ progress.counters.work + 2 * progress.beam.length + depthQuota ∧
      next.counters.endpointFitRejections = progress.counters.endpointFitRejections ∧
      next.counters.completedDepths = depth + 1 ∧
      next.counters.depthQuotaExhaustions = progress.counters.depthQuotaExhaustions +
        (if ledger.quotaExhausted then 1 else 0) := by
  rw [SearchContext.searchDepth_eq] at h
  obtain ⟨expansion, hexpansion, heq⟩ := map_eq_ok h
  cases heq
  obtain ⟨pieceMaterial, -, hinv⟩ := SearchContext.expandDepth_ok hcap hexpansion
  -- the counters the pruning starts from differ only in the exhausted quotas
  have hstart : ∀ counters : IntrinsicCapacitySearchCounters,
      counters = (if expansion.depthQuotaExhausted then { expansion.counters with
          depthQuotaExhaustions := expansion.counters.depthQuotaExhaustions + 1 }
        else expansion.counters) →
      counters.work = expansion.counters.work ∧
        counters.endpointFitRejections = expansion.counters.endpointFitRejections ∧
        counters.depthQuotaExhaustions = expansion.counters.depthQuotaExhaustions +
          (if expansion.depthQuotaExhausted then 1 else 0) := by
    rintro counters rfl
    cases expansion.depthQuotaExhausted <;> exact ⟨rfl, rfl, rfl⟩
  obtain ⟨hwork, hrejections, hexhaustions⟩ := hstart _ rfl
  obtain ⟨hpruned, hprunedBoundary⟩ := work_pruneSuccessors
    context.input.incumbent (context.input.preparedPieces.length - (depth + 1))
    (context.suffixMaterial.getD (depth + 1) 0) expansion.successors
    (if expansion.depthQuotaExhausted then { expansion.counters with
        depthQuotaExhaustions := expansion.counters.depthQuotaExhaustions + 1 }
      else expansion.counters)
  obtain ⟨hmeasured, hmeasuredBoundary⟩ := work_measureSurvivors
    context.subsystems.toLayoutAuthority (context.survivors depth expansion).1
    (context.survivors depth expansion).2 progress.cavityCache
  have hboundary := hmeasuredBoundary.trans hprunedBoundary
  unfold IntrinsicCapacitySearchCounters.boundary at hboundary
  obtain ⟨hboundaryRejections, hboundary⟩ := Prod.mk.inj hboundary
  obtain ⟨-, hboundaryExhaustions⟩ := Prod.mk.inj hboundary
  have hbase := hinv.boundary
  unfold IntrinsicCapacitySearchCounters.boundary at hbase
  obtain ⟨hbaseRejections, hbase⟩ := Prod.mk.inj hbase
  obtain ⟨-, hbaseExhaustions⟩ := Prod.mk.inj hbase
  rw [SearchContext.retainDepth_eq]
  refine ⟨?_, ?_, rfl, ?_⟩
  · have hexpanded := hinv.work
    have hquota : expansion.consumedAtDepth ≤ depthQuota := by
      rw [hinv.consumedAtDepth]
      exact Nat.min_le_left _ _
    have hsame : (context.survivors depth expansion).2.work +
        (context.survivors depth expansion).1.length =
          expansion.counters.work + expansion.successors.length := hpruned.trans
            (congrArg (· + expansion.successors.length) hwork)
    show (context.measured depth progress.cavityCache expansion).2.1.work ≤ _
    unfold DepthExpansion.work at hexpanded
    unfold SearchContext.measured
    omega
  · exact (hboundaryRejections.trans hrejections).trans hbaseRejections
  · exact (hboundaryExhaustions.trans hexhaustions).trans
      (congrArg (· + _) hbaseExhaustions)

/-- **A depth keeps the beam sound.** -/
theorem BeamSound.step {context : SearchContext heap} {depth : ℕ}
    {piece : IrregularPreparedPiece F} {progress next : SearchProgress heap}
    {ledger : IntrinsicAnytimeDepthBudgetLedger}
    (h : BeamSound context.subsystems context.input depth progress)
    (hkeyed : KeyedCavities context.subsystems.toLayoutAuthority)
    (hcap : progress.consumedPlacementEvaluations + depthQuota ≤
      context.input.placementEvaluationCap)
    (hstep : context.searchDepth depth piece progress = .ok (next, ledger)) :
    BeamSound context.subsystems context.input (depth + 1) next := by
  obtain ⟨hwork, hrejections, hcompleted, hexhaustions⟩ :=
    SearchContext.searchDepth_counters hcap hstep
  rw [SearchContext.searchDepth_eq] at hstep
  obtain ⟨expansion, hexpansion, heq⟩ := map_eq_ok hstep
  cases heq
  obtain ⟨pieceMaterial, hmaterial, hinv⟩ := SearchContext.expandDepth_ok hcap hexpansion
  have hsound : ∀ successor ∈ expansion.successors,
      EntrySound context.input successor ∧ (successor.state.placementOrder = [] →
        successor.CavitiesRight context.subsystems.toLayoutAuthority) := by
    intro successor hsuccessor
    obtain ⟨parent, hparent, hmade⟩ := hinv.successors successor hsuccessor
    exact ⟨(h.entries parent hparent).successor hmaterial hmade,
      hmade.cavitiesRight (h.cavities parent hparent)⟩
  obtain ⟨hcavities, hcache⟩ := h.cache.measureSurvivors hkeyed
    (context.survivors depth expansion).2
    (show ∀ successor ∈ (context.survivors depth expansion).1, _ by
      intro successor hsuccessor
      obtain ⟨hentry, hempty⟩ := hsound successor (mem_pruneSuccessors hsuccessor)
      exact ⟨hentry.built, hentry.key, hempty⟩)
  refine ⟨?_, ?_, ?_, ?_, ?_, hrejections.trans h.rejections, hcompleted, ?_⟩
  · intro entry hentry
    obtain ⟨-, successor, hsuccessor, cavities, rfl⟩ :=
      SearchContext.mem_retainDepth hentry
    obtain ⟨hentry, -⟩ := hsound successor hsuccessor
    exact ⟨hentry.built, hentry.material, hentry.span, hentry.key⟩
  · intro entry hentry
    exact hcavities entry (SearchContext.mem_retainDepth hentry).1
  · rw [SearchContext.retainDepth_eq]
    exact hcache
  · rw [SearchContext.retainDepth_eq]
    exact length_retainCapacityBeamEntries_le _ _
  · have hwidth := h.width
    have hbefore := h.work
    rw [Nat.succ_mul]
    unfold depthWork at hbefore ⊢
    omega
  · have hbefore := h.exhaustions
    rw [hexhaustions]
    split <;> omega

/-! ## §3  The accounts -/

/-- The ledgers are those of the depths so far, each within its quota. -/
structure LedgersSound (depth : ℕ) (progress : SearchProgress heap)
    (ledgers : List IntrinsicAnytimeDepthBudgetLedger) : Prop where
  length : ledgers.length = depth
  good : ∀ ledger ∈ ledgers.zipIdx, badLedger ledger.1 ledger.2 = false
  consumed : (ledgers.map fun ledger => ledger.consumedPlacementEvaluations).sum =
    progress.consumedPlacementEvaluations
  exhaustions : progress.counters.depthQuotaExhaustions =
    ledgers.countP fun ledger => ledger.quotaExhausted

/-- The no-skip state is that of the beam, and was lost at a depth so far or not
at all. -/
structure NoSkipSound (depth : ℕ) (beam : List (CapacityEntry heap))
    (frontier : IntrinsicAnytimeNoSkipFrontierState) : Prop where
  present : frontier.present = hasNoSkipState beam
  kept : frontier.present = true → frontier.firstLossDepth = none
  lost : frontier.present = false → ∃ lossDepth, frontier.firstLossDepth = some lossDepth ∧
    1 ≤ lossDepth ∧ lossDepth ≤ depth

theorem hasNoSkipState_iff {beam : List (CapacityEntry heap)} :
    hasNoSkipState beam = true ↔ ∃ entry ∈ beam, entry.state.unplacedPieceIds = [] := by
  unfold hasNoSkipState
  rw [List.any_eq_true]
  simp only [List.isEmpty_iff]

/-- A no-skip state comes from a no-skip state. -/
theorem DepthContext.Successor.noSkip {context : DepthContext heap}
    {entry successor : CapacityEntry heap} (hmade : context.Successor entry successor)
    (h : successor.state.unplacedPieceIds = []) : entry.state.unplacedPieceIds = [] := by
  cases hmade with
  | skip => exact absurd h (List.append_ne_nil_of_right_ne_nil _ (List.cons_ne_nil _ _))
  | place reference gridSpan key hspan hkey => exact h

theorem hasNoSkipState_step {context : SearchContext heap} {depth : ℕ}
    {piece : IrregularPreparedPiece F} {progress next : SearchProgress heap}
    {ledger : IntrinsicAnytimeDepthBudgetLedger}
    (hcap : progress.consumedPlacementEvaluations + depthQuota ≤
      context.input.placementEvaluationCap)
    (hstep : context.searchDepth depth piece progress = .ok (next, ledger))
    (h : hasNoSkipState next.beam = true) : hasNoSkipState progress.beam = true := by
  obtain ⟨entry, hentry, hnone⟩ := hasNoSkipState_iff.mp h
  obtain ⟨pieceMaterial, -, parent, hparent, successor, cavities, hmade, rfl⟩ :=
    SearchContext.searchDepth_beam hcap hstep hentry
  exact hasNoSkipState_iff.mpr ⟨parent, hparent, hmade.noSkip hnone⟩

/-- The no-skip state after one depth. -/
def noSkipAfter (frontier : IntrinsicAnytimeNoSkipFrontierState) (depth : ℕ)
    (hasNoSkip : Bool) : IntrinsicAnytimeNoSkipFrontierState where
  present := hasNoSkip
  firstLossDepth := frontier.firstLossDepth.or
    (if frontier.present && !hasNoSkip then some (depth + 1) else none)

theorem record_true (accounts : SearchAccounts)
    (ledger : IntrinsicAnytimeDepthBudgetLedger) (beam : List (CapacityEntry heap)) :
    (accounts.record true ledger beam).perDepthBudgetLedgers =
        accounts.perDepthBudgetLedgers ++ [ledger] ∧
      (accounts.record true ledger beam).noSkipFrontier =
        noSkipAfter accounts.noSkipFrontier ledger.depth (hasNoSkipState beam) :=
  ⟨rfl, rfl⟩

theorem NoSkipSound.step {depth : ℕ} {beam next : List (CapacityEntry heap)}
    {frontier : IntrinsicAnytimeNoSkipFrontierState} (h : NoSkipSound depth beam frontier)
    (hstep : hasNoSkipState next = true → hasNoSkipState beam = true) :
    NoSkipSound (depth + 1) next (noSkipAfter frontier depth (hasNoSkipState next)) := by
  refine ⟨rfl, ?_, ?_⟩
  · intro hnext
    have hpresent : frontier.present = true := h.present.trans (hstep hnext)
    show frontier.firstLossDepth.or _ = none
    rw [h.kept hpresent, show hasNoSkipState next = true from hnext, Bool.not_true,
      Bool.and_false, if_neg Bool.false_ne_true]
    rfl
  · intro hnext
    have hlost : hasNoSkipState next = false := hnext
    show ∃ lossDepth, frontier.firstLossDepth.or _ = some lossDepth ∧ _
    cases hpresent : frontier.present with
    | true =>
        rw [h.kept hpresent, hlost]
        exact ⟨depth + 1, rfl, Nat.le_add_left _ _, Nat.le_refl _⟩
    | false =>
        obtain ⟨lossDepth, hloss, hpositive, hle⟩ := h.lost hpresent
        rw [hloss]
        exact ⟨lossDepth, rfl, hpositive, Nat.le_succ_of_le hle⟩

/-- The ledger of a depth is in place and within its quota. -/
theorem badLedger_eq_false (depth offered : ℕ) :
    badLedger ⟨depth, min depthQuota offered, decide (depthQuota < offered)⟩ depth =
      false := by
  have hle : min depthQuota offered ≤ 4096 := Nat.min_le_left _ _
  unfold badLedger isSafeCount
  simp only [ne_eq, not_true_eq_false, decide_false, Bool.false_or, Bool.or_eq_false_iff,
    Bool.not_eq_false', decide_eq_true_eq, decide_eq_false_iff_not, Nat.not_lt,
    Bool.and_eq_false_imp]
  refine ⟨⟨by omega, hle⟩, fun hexhausted => ?_⟩
  rw [not_not]
  exact Nat.min_eq_left (Nat.le_of_lt hexhausted)

theorem LedgersSound.step {context : SearchContext heap} {depth : ℕ}
    {piece : IrregularPreparedPiece F} {progress next : SearchProgress heap}
    {ledger : IntrinsicAnytimeDepthBudgetLedger}
    {ledgers : List IntrinsicAnytimeDepthBudgetLedger}
    (h : LedgersSound depth progress ledgers)
    (hcap : progress.consumedPlacementEvaluations + depthQuota ≤
      context.input.placementEvaluationCap)
    (hstep : context.searchDepth depth piece progress = .ok (next, ledger)) :
    LedgersSound (depth + 1) next (ledgers ++ [ledger]) := by
  obtain ⟨hledger, hconsumed⟩ := SearchContext.searchDepth_ledger hcap hstep
  obtain ⟨-, -, -, hexhaustions⟩ := SearchContext.searchDepth_counters hcap hstep
  refine ⟨?_, ?_, ?_, ?_⟩
  · rw [List.length_append, h.length, List.length_singleton]
  · intro entry hentry
    rw [List.zipIdx_append, List.mem_append] at hentry
    rcases hentry with hentry | hentry
    · exact h.good entry hentry
    · rw [List.zipIdx_singleton, List.mem_singleton, Nat.zero_add, h.length] at hentry
      rw [hentry, hledger]
      exact badLedger_eq_false _ _
  · rw [List.map_append, List.sum_append, h.consumed, hconsumed]
    rfl
  · rw [List.countP_append, hexhaustions, h.exhaustions, List.countP_singleton]

/-- The invariant of an emitted lane; the accounts are kept where they are
recorded. -/
structure LoopSound (subsystems : SearchSubsystems heap) (input : ColdSearchInput heap)
    (recorded : Bool) (depth : ℕ) (loop : SearchLoop heap) : Prop where
  partition : BeamPartition input true depth loop.progress
  beam : BeamSound subsystems input depth loop.progress
  ledgers : recorded = true →
    LedgersSound depth loop.progress loop.accounts.perDepthBudgetLedgers
  noSkip : recorded = true →
    NoSkipSound depth loop.progress.beam loop.accounts.noSkipFrontier

section
variable {subsystems : SearchSubsystems heap} {identities : CheckpointIdentities heap}
  {input : ColdSearchInput heap}

theorem LoopSound.step {recorded : Bool} {depth : ℕ} {loop next : SearchLoop heap}
    {context : SearchContext heap} {piece : IrregularPreparedPiece F}
    (h : LoopSound subsystems input recorded depth loop)
    (hkeyed : KeyedCavities subsystems.toLayoutAuthority)
    (hcontext : makeSearchContext subsystems input = .ok context)
    (hpiece : input.preparedPieces[depth]? = some piece)
    (hadvance : context.advance recorded depth piece loop = .ok next) :
    LoopSound subsystems input recorded (depth + 1) next := by
  obtain ⟨ledger, hsearch, haccounts⟩ := advance_ok hadvance
  have hpartition := h.partition.step hcontext hpiece hsearch
  obtain ⟨rfl, rfl, -⟩ := makeSearchContext_ok hcontext
  have hroom := room_of_consumed_le h.partition.consumed hpiece
  refine ⟨hpartition, h.beam.step hkeyed hroom hsearch, ?_, ?_⟩
  · rintro rfl
    rw [haccounts, (record_true _ _ _).1]
    exact (h.ledgers rfl).step hroom hsearch
  · rintro rfl
    rw [haccounts, (record_true _ _ _).2,
      (SearchContext.searchDepth_ledger hroom hsearch).1]
    exact (h.noSkip rfl).step (hasNoSkipState_step hroom hsearch)

end

/-! ## §5  The checkpoint -/

section
variable {subsystems : SearchSubsystems heap} {identities : CheckpointIdentities heap}
  {input : ColdSearchInput heap} {context : SearchContext heap} {depth : ℕ}
  {loop : SearchLoop heap}

end

/-! ## §6  The search -/

end PolygonNesting
