import PolygonNesting.Capacity.CavityCache
import PolygonNesting.Capacity.Checkpoint
import PolygonNesting.Capacity.DepthStep

set_option linter.unusedSectionVars false

/-!
# What a valid checkpoint is

The validator of a checkpoint is a sequence of checks; the first that fails is
its answer.  It answers nothing exactly when all of them hold, so its checks are
collected here as structures: what is required of one frontier entry, and what
is required of the checkpoint around its frontier.
-/

namespace PolygonNesting

variable {F : Type} [LinearOrder F] [Zero F] [One F] [Add F] [Sub F] [Neg F]
  [Mul F] [Div F] [JsMath F] {heap : ℕ → IrregularPlacedPiece F}

theorem ite_some_eq_none {α : Type} {c : Prop} [Decidable c] {message : α}
    {rest : Option α} : (if c then some message else rest) = none ↔ ¬c ∧ rest = none := by
  by_cases h : c
  · rw [if_pos h]
    exact ⟨fun hsome => absurd hsome (Option.some_ne_none _), fun ⟨hnot, _⟩ => absurd h hnot⟩
  · rw [if_neg h]
    exact ⟨fun hrest => ⟨h, hrest⟩, fun ⟨_, hrest⟩ => hrest⟩

theorem ite_some_fst_eq_none {α β : Type} {c : Prop} [Decidable c] {message : α} {b : β}
    {rest : Option α × β} :
    (if c then (some message, b) else rest).1 = none ↔ ¬c ∧ rest.1 = none := by
  by_cases h : c
  · rw [if_pos h]
    exact ⟨fun hsome => absurd hsome (Option.some_ne_none _), fun ⟨hnot, _⟩ => absurd h hnot⟩
  · rw [if_neg h]
    exact ⟨fun hrest => ⟨h, hrest⟩, fun ⟨_, hrest⟩ => hrest⟩

/-! ## §1  One frontier entry -/

/-- The state built again from its lists. -/
def recomputedState (state : CapacityState heap) : CapacityState heap :=
  IrregularBeamState.fromInput
    { remainingPreparedPieces := state.remainingPreparedPieces
      placedCollisionGeometries := state.placedCollisionGeometries
      unplacedPieceIds := some state.unplacedPieceIds
      unplacedSourcePieceIds := none
      placementOrder := state.placementOrder
      placedCollisionIndex := none }

/-- What the validator requires of a frontier entry, less its cavities. -/
structure DecisionStateValid (identities : CheckpointIdentities heap)
    (context : SearchContext heap) (nextDepth : ℕ)
    (entry : IntrinsicAnytimeDecisionState heap) : Prop where
  metadata : entry.continuationMetadataIdentity =
    identities.continuationMetadataIdentity entry.state
  entryKeys : (recomputedState entry.state).canonicalEntryKeys =
    entry.state.canonicalEntryKeys
  index : identities.indexContinuationIdentity
      (recomputedState entry.state).placedCollisionIndex =
    identities.indexContinuationIdentity entry.state.placedCollisionIndex
  indexMatches :
    entry.state.placedCollisionIndex.matches entry.state.placedCollisionGeometries = true
  placed : entry.placedPreparedIds = entry.state.placementOrder
  pending : entry.pendingPreparedIds = context.input.preparedIds.drop nextDepth
  pendingOrder : entry.pendingOrder = context.input.preparedIds.drop nextDepth
  statePending : entry.state.remainingPreparedPieces.map intrinsicCapacityPreparedPieceId =
    context.input.preparedIds.drop nextDepth
  skipped : entry.permanentlySkippedPreparedIds = entry.state.unplacedPieceIds
  deferred : entry.deferredPreparedIds = []
  cursor : entry.cursor = nextDepth
  pass : entry.pass = 0
  deferralCounts : entry.deferralCounts = []
  partition : isRequestPartition (entry.placedPreparedIds ++ entry.pendingPreparedIds ++
    entry.deferredPreparedIds ++ entry.permanentlySkippedPreparedIds)
    context.input.preparedIds = true
  eligibility : entry.eligibility = eligibilityOf entry.state.unplacedPieceIds
  material : sumMaterialAreas entry.state.placementOrder
    context.input.materialAreasByPieceId = some entry.placedDoubledMaterialAreaGrid2
  span : intrinsicCapacityStateGridSpan entry.state = some entry.gridSpan
  fit : intrinsicCapacitySpanFitsSheet entry.gridSpan context.sheetWidthGrid
    context.sheetHeightGrid = (entry.fitMask.q0, entry.fitMask.q90)
  key : entry.state.bottomLeftAnchoredCanonicalOccupiedGeometryKey.getD
    entry.state.canonicalOccupiedGeometryKey = entry.anchoredOccupiedKey

/-- The cavities of an entry are what the measurement over a cache gives. -/
def CavitiesMatch (authority : LayoutAuthority heap)
    (entry : IntrinsicAnytimeDecisionState heap)
    (cache : IntrinsicCapacityCavityCache F) : Prop :=
  ∃ cavities, (measureIntrinsicCapacityCavitiesWithKey authority entry.state
      entry.anchoredOccupiedKey cache).1 = some cavities ∧
    cavities.count = entry.cavities.count ∧
    cavities.totalAreaMm2 = entry.cavities.totalAreaMm2

theorem measured_eq_none {authority : LayoutAuthority heap}
    {entry : IntrinsicAnytimeDecisionState heap}
    {cache : IntrinsicCapacityCavityCache F} {missing different : String} :
    (match measureIntrinsicCapacityCavitiesWithKey authority entry.state
        entry.anchoredOccupiedKey cache with
      | (none, cache) => (some missing, cache)
      | (some cavities, cache) =>
          if cavities.count ≠ entry.cavities.count ∨
              cavities.totalAreaMm2 ≠ entry.cavities.totalAreaMm2 then
            (some different, cache)
          else (none, cache)).1 = none ↔ CavitiesMatch authority entry cache := by
  unfold CavitiesMatch
  rcases measureIntrinsicCapacityCavitiesWithKey authority entry.state
    entry.anchoredOccupiedKey cache with ⟨result, cache'⟩
  cases result with
  | none =>
      constructor
      · intro h
        cases h
      · rintro ⟨cavities, h, -⟩
        cases h
  | some cavities =>
      dsimp only
      rw [ite_some_fst_eq_none, not_or, not_not, not_not]
      constructor
      · rintro ⟨⟨hcount, harea⟩, -⟩
        exact ⟨cavities, rfl, hcount, harea⟩
      · rintro ⟨other, hother, hcount, harea⟩
        cases hother
        exact ⟨⟨hcount, harea⟩, rfl⟩

/-- **The validator accepts an entry** exactly when all its checks hold. -/
theorem validateDecisionState_eq_none {identities : CheckpointIdentities heap}
    {context : SearchContext heap} {nextDepth : ℕ}
    {entry : IntrinsicAnytimeDecisionState heap}
    {cache : IntrinsicCapacityCavityCache F} :
    (validateDecisionState identities context nextDepth entry cache).1 = none ↔
      DecisionStateValid identities context nextDepth entry ∧
        CavitiesMatch context.subsystems.toLayoutAuthority entry cache := by
  unfold validateDecisionState
  dsimp only
  iterate 10 rw [ite_some_fst_eq_none]
  simp only [not_or, not_not, Bool.not_eq_true', Bool.not_eq_false]
  constructor
  · rintro ⟨hmetadata, hkeys, ⟨hindex, hmatches⟩, ⟨hplaced, hpending, horder,
      hstatePending, hskipped, hdeferred, hcursor, hpass, hcounts⟩, hpartition,
      heligibility, hmaterial, hspan, hfit, hkey, hcavities⟩
    exact ⟨⟨hmetadata, hkeys, hindex, hmatches, hplaced, hpending, horder, hstatePending,
      hskipped, hdeferred, hcursor, hpass, hcounts, hpartition, heligibility, hmaterial,
      hspan, hfit, hkey⟩, measured_eq_none.mp hcavities⟩
  · rintro ⟨h, hcavities⟩
    exact ⟨h.metadata, h.entryKeys, ⟨h.index, h.indexMatches⟩, ⟨h.placed, h.pending,
      h.pendingOrder, h.statePending, h.skipped, h.deferred, h.cursor, h.pass,
      h.deferralCounts⟩, h.partition, h.eligibility, h.material, h.span, h.fit, h.key,
      measured_eq_none.mpr hcavities⟩

/-! ## §2  The frontier -/

theorem validateFrontier_valid {identities : CheckpointIdentities heap}
    {context : SearchContext heap} {nextDepth : ℕ}
    {frontier : List (IntrinsicAnytimeDecisionState heap)} :
    ∀ {cache : IntrinsicCapacityCavityCache F},
      validateFrontier identities context nextDepth frontier cache = none →
        ∀ entry ∈ frontier, DecisionStateValid identities context nextDepth entry := by
  induction frontier with
  | nil =>
      intro cache _ entry hentry
      exact absurd hentry List.not_mem_nil
  | cons first frontier ih =>
      intro cache h entry hentry
      unfold validateFrontier at h
      split at h
      · cases h
      · next cache' hvalid =>
        rcases List.mem_cons.mp hentry with rfl | hentry
        · exact (validateDecisionState_eq_none.mp (congrArg Prod.fst hvalid)).1
        · exact ih h entry hentry

/-- The validator leaves the cache of the measurement it makes. -/
theorem validateDecisionState_snd {identities : CheckpointIdentities heap}
    {context : SearchContext heap} {nextDepth : ℕ}
    {entry : IntrinsicAnytimeDecisionState heap}
    {cache : IntrinsicCapacityCavityCache F}
    (h : (validateDecisionState identities context nextDepth entry cache).1 = none) :
    (validateDecisionState identities context nextDepth entry cache).2 =
      (measureIntrinsicCapacityCavitiesWithKey context.subsystems.toLayoutAuthority
        entry.state entry.anchoredOccupiedKey cache).2 := by
  unfold validateDecisionState at h ⊢
  dsimp only at h ⊢
  iterate 10 rw [ite_some_fst_eq_none] at h
  obtain ⟨h1, h2, h3, h4, h5, h6, h7, h8, h9, h10, h⟩ := h
  rw [if_neg h1, if_neg h2, if_neg h3, if_neg h4, if_neg h5, if_neg h6, if_neg h7,
    if_neg h8, if_neg h9, if_neg h10]
  split
  · next cache' heq => rw [heq]
  · next cavities cache' heq =>
    rw [heq]
    split <;> rfl

/-- Valid entries whose cavities match over every cache of a kind that the
measurement keeps make a valid frontier. -/
theorem validateFrontier_eq_none {identities : CheckpointIdentities heap}
    {context : SearchContext heap} {nextDepth : ℕ}
    (Kind : IntrinsicCapacityCavityCache F → Prop)
    {frontier : List (IntrinsicAnytimeDecisionState heap)}
    (hvalid : ∀ entry ∈ frontier, DecisionStateValid identities context nextDepth entry)
    (hcavities : ∀ entry ∈ frontier, ∀ cache, Kind cache →
      CavitiesMatch context.subsystems.toLayoutAuthority entry cache ∧
        Kind (measureIntrinsicCapacityCavitiesWithKey
          context.subsystems.toLayoutAuthority entry.state entry.anchoredOccupiedKey
          cache).2) :
    ∀ {cache : IntrinsicCapacityCavityCache F}, Kind cache →
      validateFrontier identities context nextDepth frontier cache = none := by
  induction frontier with
  | nil =>
      intro cache _
      rfl
  | cons entry frontier ih =>
      intro cache hcache
      obtain ⟨hmatch, hkind⟩ := hcavities entry List.mem_cons_self cache hcache
      have haccepts := validateDecisionState_eq_none.mpr
        ⟨hvalid entry List.mem_cons_self, hmatch⟩
      rw [← validateDecisionState_snd haccepts] at hkind
      unfold validateFrontier
      rcases hresult : validateDecisionState identities context nextDepth entry cache with
        ⟨result, cache'⟩
      rw [hresult] at haccepts hkind
      obtain rfl : result = none := haccepts
      exact ih (fun other hother => hvalid other (List.mem_cons_of_mem _ hother))
        (fun other hother => hcavities other (List.mem_cons_of_mem _ hother)) hkind

/-! ## §3  The checkpoint -/

/-- Some frontier entry is complete-eligible. -/
def frontierHasNoSkip (frontier : List (IntrinsicAnytimeDecisionState heap)) : Bool :=
  frontier.any fun entry => decide (entry.eligibility = .completeEligible)

theorem hasNoSkip_iff {frontier : List (IntrinsicAnytimeDecisionState heap)} :
    frontierHasNoSkip frontier = true ↔
      ∃ entry ∈ frontier, entry.eligibility = .completeEligible := by
  unfold frontierHasNoSkip
  simp only [List.any_eq_true, decide_eq_true_eq]

/-- What the validator requires of a checkpoint that is not trusted. -/
structure CheckpointValid (identities : CheckpointIdentities heap)
    (context : SearchContext heap) (requestFingerprint : String)
    (producerRole : IntrinsicAnytimeProducerRole)
    (checkpoint : IntrinsicAnytimeCheckpoint heap) : Prop where
  integrity : checkpoint.integrityHash =
    intrinsicCapacityCheckpointIntegrityHash identities checkpoint
  fingerprint : checkpoint.requestFingerprint = requestFingerprint
  role : checkpoint.producerRole = producerRole
  cohort : checkpoint.archiveCohort = .partialCohort
  bounds : checkpoint.searchBounds = intrinsicCapacityV1Bounds
  incumbent : checkpoint.incumbentBinding =
    intrinsicCapacityIncumbentBinding context.input.incumbent
  depthSafe : isSafeCount checkpoint.nextDepth = true
  depthPositive : checkpoint.nextDepth ≠ 0
  depthBeforeEnd : checkpoint.nextDepth < context.input.preparedIds.length
  resumePosition : checkpoint.depthBoundaryResumePosition = checkpoint.nextDepth
  frontier : checkpoint.frontier ≠ []
  cap : checkpoint.budgetLedgers.totalPlacementEvaluationCap =
    context.input.placementEvaluationCap
  underCap : checkpoint.budgetLedgers.totalConsumedPlacementEvaluations ≤
    checkpoint.budgetLedgers.totalPlacementEvaluationCap
  ledgerLength : checkpoint.budgetLedgers.perDepth.length = checkpoint.nextDepth
  ledgers : ∀ ledger ∈ checkpoint.budgetLedgers.perDepth.zipIdx,
    badLedger ledger.1 ledger.2 = false
  consumed : (checkpoint.budgetLedgers.perDepth.map fun ledger =>
      ledger.consumedPlacementEvaluations).sum =
    checkpoint.budgetLedgers.totalConsumedPlacementEvaluations
  cohortPartial : checkpoint.budgetLedgers.perCohort.partialCohort =
    (checkpoint.budgetLedgers.perDepth.map fun ledger =>
      ledger.consumedPlacementEvaluations).sum
  cohortComplete : checkpoint.budgetLedgers.perCohort.complete = 0
  cohortExperimental : checkpoint.budgetLedgers.perCohort.experimentalComplete = 0
  deficitSafe : isSafeCount checkpoint.schedulerDeficit = true
  deficit : checkpoint.schedulerDeficit = context.input.schedulerDeficit.getD 0
  completed : checkpoint.counters.completedDepths = checkpoint.nextDepth
  exhaustions : checkpoint.counters.depthQuotaExhaustions =
    checkpoint.budgetLedgers.perDepth.countP fun ledger => ledger.quotaExhausted
  counters : allCountersNonNegativeSafeInteger checkpoint.counters = true
  noSkip : badNoSkipFrontier checkpoint.noSkipFrontier checkpoint.nextDepth = false
  entries : validateFrontier identities context checkpoint.nextDepth
    checkpoint.frontier ∅ = none
  present : checkpoint.noSkipFrontier.present = frontierHasNoSkip checkpoint.frontier
  noLoss : ¬(frontierHasNoSkip checkpoint.frontier = true ∧
    checkpoint.noSkipFrontier.firstLossDepth.isSome = true)

/-- **The validator accepts a checkpoint** exactly when it has the right version
and is trusted, or all its checks hold. -/
theorem validateCheckpoint_eq_none {identities : CheckpointIdentities heap}
    {context : SearchContext heap} {requestFingerprint : String}
    {producerRole : IntrinsicAnytimeProducerRole}
    {checkpoint : IntrinsicAnytimeCheckpoint heap} :
    validateIntrinsicCapacityCheckpoint identities context requestFingerprint
        producerRole checkpoint = none ↔
      checkpoint.version = intrinsicAnytimeCheckpointVersion ∧
        (checkpoint.trustedInternal = true ∨ CheckpointValid identities context
          requestFingerprint producerRole checkpoint) := by
  unfold validateIntrinsicCapacityCheckpoint
  dsimp only
  rw [ite_some_eq_none, not_not]
  refine and_congr_right fun _ => ?_
  by_cases htrusted : checkpoint.trustedInternal = true
  · rw [if_pos htrusted]
    exact ⟨fun _ => .inl htrusted, fun _ => rfl⟩
  · rw [if_neg htrusted]
    iterate 12 rw [ite_some_eq_none]
    simp only [not_or, not_not, Bool.or_eq_true, Bool.and_eq_true, Bool.not_eq_true',
      Bool.not_eq_false, Bool.not_eq_true, decide_eq_true_eq, beq_iff_eq, Nat.not_le,
      Nat.not_lt, List.any_eq_true, not_exists, not_and, Prod.exists]
    constructor
    · rintro ⟨hintegrity, hfingerprint, ⟨hrole, hcohort⟩, hbounds, hincumbent,
        ⟨⟨⟨hsafe, hpositive⟩, hend⟩, hposition⟩, hempty, ⟨hcap, hunder⟩,
        ⟨hlength, hledgers⟩, ⟨hsum, hcohortPart, hcomplete, hexperimental⟩,
        ⟨⟨⟨⟨hdeficitSafe, hdeficit⟩, hcompleted⟩, hexhaustions⟩, hcounters⟩, hnoSkip,
        hlast⟩
      -- the frontier passes, and then the last check does
      obtain ⟨hentries, hpresent, hnoLoss⟩ : validateFrontier identities context
          checkpoint.nextDepth checkpoint.frontier ∅ = none ∧ ¬_ ∧ ¬_ := by
        split at hlast
        · cases hlast
        · next hentries =>
          exact ⟨hentries, not_or.mp (ite_some_eq_none.mp hlast).1⟩
      exact .inr ⟨hintegrity, hfingerprint, hrole, hcohort, hbounds, hincumbent, hsafe,
        hpositive, hend, hposition, List.isEmpty_eq_false_iff.mp hempty, hcap, hunder,
        hlength, fun ledger hmem => hledgers ledger.1 ledger.2 hmem, hsum, hcohortPart,
        hcomplete, hexperimental, hdeficitSafe, hdeficit, hcompleted, hexhaustions,
        hcounters, hnoSkip, hentries, not_not.mp hpresent,
        fun ⟨hany, hloss⟩ => hnoLoss ⟨hasNoSkip_iff.mp hany, hloss⟩⟩
    · intro h
      obtain h | h := h
      · exact absurd h htrusted
      refine ⟨h.integrity, h.fingerprint, ⟨h.role, h.cohort⟩, h.bounds, h.incumbent,
        ⟨⟨⟨h.depthSafe, h.depthPositive⟩, h.depthBeforeEnd⟩, h.resumePosition⟩,
        List.isEmpty_eq_false_iff.mpr h.frontier, ⟨h.cap, h.underCap⟩,
        ⟨h.ledgerLength, fun ledger index hmem => h.ledgers (ledger, index) hmem⟩,
        ⟨h.consumed, h.cohortPartial, h.cohortComplete, h.cohortExperimental⟩,
        ⟨⟨⟨⟨h.deficitSafe, h.deficit⟩, h.completed⟩, h.exhaustions⟩, h.counters⟩,
        h.noSkip, ?_⟩
      rw [h.entries]
      exact ite_some_eq_none.mpr ⟨not_or.mpr ⟨not_not.mpr h.present,
        fun ⟨hany, hloss⟩ => h.noLoss ⟨hasNoSkip_iff.mpr hany, hloss⟩⟩, rfl⟩

end PolygonNesting
