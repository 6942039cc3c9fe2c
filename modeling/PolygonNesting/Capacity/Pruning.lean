import PolygonNesting.Capacity.Partition

set_option linter.unusedSectionVars false

/-!
# Pruning is admissible

A successor is dropped when even placing every piece left could not reach the
count, or the material, of the incumbent.  Placing and leaving out the pieces
left in any way adds some of their ids to the placement order, so the bounds hold
of every completion; and count and material are the first two keys of the
objective, so no later key is ever looked at.
-/

namespace PolygonNesting

variable {F : Type} [LinearOrder F] [Zero F] [One F] [Add F] [Sub F] [Neg F]
  [Mul F] [Div F] [JsMath F] {heap : ℕ → IrregularPlacedPiece F}

/-! ## §1  Material -/

theorem sumMaterialAreas_append (ids : List PieceId) (pieceId : PieceId)
    (areas : MaterialAreas) :
    sumMaterialAreas (ids ++ [pieceId]) areas =
      (sumMaterialAreas ids areas).bind fun sum => (areas pieceId).map (sum + ·) := by
  unfold sumMaterialAreas
  rw [List.foldlM_append]
  refine Option.bind_congr fun sum _ => ?_
  rw [List.foldlM_cons]
  cases areas pieceId <;> rfl

theorem sumMaterialAreas_isSome {areas : MaterialAreas} {ids : List PieceId}
    (h : ∀ pieceId ∈ ids, (areas pieceId).isSome) :
    (sumMaterialAreas ids areas).isSome := by
  induction ids using List.reverseRecOn with
  | nil => rfl
  | append_singleton ids pieceId ih =>
      obtain ⟨sum, hsum⟩ := Option.isSome_iff_exists.mp
        (ih fun other hother => h other (List.mem_append_left _ hother))
      obtain ⟨area, harea⟩ := Option.isSome_iff_exists.mp
        (h pieceId (List.mem_append_right _ (List.mem_singleton_self _)))
      rw [sumMaterialAreas_append, hsum, Option.bind_some, harea]
      rfl

/-- The material of some ids, a missing area counting as nothing. -/
def materialOf (areas : MaterialAreas) (ids : List PieceId) : ℤ :=
  (ids.map fun pieceId => (areas pieceId).getD 0).sum

theorem materialOf_append (areas : MaterialAreas) (first second : List PieceId) :
    materialOf areas (first ++ second) =
      materialOf areas first + materialOf areas second := by
  unfold materialOf
  rw [List.map_append, List.sum_append]

theorem materialOf_of_sum {areas : MaterialAreas} {ids : List PieceId} {sum : ℤ}
    (h : sumMaterialAreas ids areas = some sum) : materialOf areas ids = sum := by
  induction ids using List.reverseRecOn generalizing sum with
  | nil =>
      cases h
      rfl
  | append_singleton ids pieceId ih =>
      rw [sumMaterialAreas_append] at h
      obtain ⟨before, hbefore, h⟩ := Option.bind_eq_some_iff.mp h
      obtain ⟨area, harea, rfl⟩ := Option.map_eq_some_iff.mp h
      rw [materialOf_append, ih hbefore]
      unfold materialOf
      rw [List.map_singleton, List.sum_singleton, harea]
      rfl

/-- No area of the given ids is negative. -/
def NonNegativeAreas (areas : MaterialAreas) (ids : List PieceId) : Prop :=
  ∀ pieceId ∈ ids, 0 ≤ (areas pieceId).getD 0

/-- Fewer pieces, less material. -/
theorem materialOf_sublist {areas : MaterialAreas} {ids fewer : List PieceId}
    (h : NonNegativeAreas areas ids) (hfewer : fewer.Sublist ids) :
    materialOf areas fewer ≤ materialOf areas ids := by
  induction hfewer with
  | slnil => exact le_refl _
  | cons pieceId _ ih =>
      have hrest := ih fun other hother => h other (List.mem_cons_of_mem _ hother)
      have hfirst := h pieceId List.mem_cons_self
      unfold materialOf at hrest ⊢
      rw [List.map_cons, List.sum_cons]
      omega
  | cons_cons pieceId _ ih =>
      have hrest := ih fun other hother => h other (List.mem_cons_of_mem _ hother)
      unfold materialOf at hrest ⊢
      rw [List.map_cons, List.sum_cons, List.map_cons, List.sum_cons]
      omega

/-- **The suffix sums** are the material from each index on. -/
theorem suffixMaterialSums_getD {areas : MaterialAreas} {ids : List PieceId} :
    ∀ {sums : List ℤ}, suffixMaterialSums areas ids = some sums →
      ∀ index, sums.getD index 0 = materialOf areas (ids.drop index) := by
  induction ids with
  | nil =>
      intro sums h index
      cases h
      cases index with
      | zero => rfl
      | succ index => rfl
  | cons pieceId ids ih =>
      intro sums h index
      unfold suffixMaterialSums at h
      obtain ⟨rest, hrest, h⟩ := Option.bind_eq_some_iff.mp h
      obtain ⟨area, harea, h⟩ := Option.bind_eq_some_iff.mp h
      cases h
      cases index with
      | zero =>
          have htail := ih hrest 0
          have hhead : rest.headD 0 = rest.getD 0 0 := by cases rest <;> rfl
          rw [List.drop_zero] at htail
          rw [List.getD_cons_zero, hhead, htail, List.drop_zero, materialOf, materialOf,
            List.map_cons, List.sum_cons, harea]
          exact add_comm _ _
      | succ index => exact ih hrest index

/-! ## §2  The material of an entry -/

/-- The material of an entry is that of what it placed. -/
def CapacityBeamEntry.MaterialRight (input : ColdSearchInput heap)
    (entry : CapacityEntry heap) : Prop :=
  sumMaterialAreas entry.state.placementOrder input.materialAreasByPieceId =
    some entry.placedDoubledMaterialAreaGrid2

theorem DepthContext.Successor.materialRight {context : DepthContext heap}
    {entry successor : CapacityEntry heap} (hmade : context.Successor entry successor)
    (h : entry.MaterialRight context.input)
    (hmaterial : context.input.materialAreasByPieceId
      (intrinsicCapacityPreparedPieceId context.piece) = some context.pieceMaterial) :
    successor.MaterialRight context.input := by
  cases hmade with
  | skip => exact h
  | place reference gridSpan key hspan hkey =>
      unfold CapacityBeamEntry.MaterialRight at h
      show sumMaterialAreas (entry.state.placementOrder ++ [_]) _ = some _
      rw [sumMaterialAreas_append, h, hmaterial]
      rfl

theorem LaneStarts.materialRight {context : SearchContext heap} {start : LaneStart heap}
    {cache cache' : IntrinsicCapacityCavityCache F}
    (h : LaneStarts context cache start cache') :
    start.entry.MaterialRight context.input := by
  cases h with
  | cold gridSpan hnone hspan => rfl
  | warm seed key gridSpan cavities _ hsome hkey hspan hunplaced horder hremaining
      hdepth hareas hmeasure =>
      obtain ⟨sum, hsum⟩ := Option.isSome_iff_exists.mp (sumMaterialAreas_isSome hareas)
      show sumMaterialAreas seed.state.placementOrder _ = some (Option.getD _ 0)
      rw [horder, hsum]
      rfl

/-- **Every entry of a reachable beam has the material of what it placed.** -/
theorem LoopReached.materialRight {subsystems : SearchSubsystems heap}
    {identities : CheckpointIdentities heap} {input : ColdSearchInput heap}
    {caches : IntrinsicCapacityCavityCache F → Prop} {emitted : Bool}
    {call : SearchCall heap} {depth : ℕ} {loop : SearchLoop heap}
    (h : LoopReached subsystems identities input caches emitted call depth loop) :
    ∀ entry ∈ loop.progress.beam, entry.MaterialRight input := by
  refine (h.induction (motive := fun _ _ depth loop =>
    loop.progress.consumedPlacementEvaluations ≤ depth * depthQuota ∧
      ∀ entry ∈ loop.progress.beam, entry.MaterialRight input) ?_ ?_ ?_ ?_).2
  · intro limit context start cache cache' _ hcontext hstart
    obtain ⟨-, rfl, -⟩ := makeSearchContext_ok hcontext
    refine ⟨Nat.zero_le _, fun entry hentry => ?_⟩
    rw [List.mem_singleton.mp hentry]
    exact hstart.materialRight
  · intro context checkpoint fingerprint start cache cache' _ hcontext _ hvalid
    obtain ⟨-, rfl, -⟩ := makeSearchContext_ok hcontext
    refine ⟨hvalid.consumed_le, fun entry hentry => ?_⟩
    obtain ⟨decision, hdecision, rfl⟩ := List.mem_map.mp hentry
    exact (validateFrontier_valid hvalid.entries decision hdecision).material
  · rintro emitted recorded depth loop next context piece ⟨hconsumed, hmaterial⟩ hcontext
      hpiece hadvance
    obtain ⟨-, rfl, -⟩ := makeSearchContext_ok hcontext
    obtain ⟨ledger, hsearch, -⟩ := advance_ok hadvance
    have hroom := room_of_consumed_le hconsumed hpiece
    obtain ⟨hledger, hspent⟩ := SearchContext.searchDepth_ledger hroom hsearch
    constructor
    · rw [hspent, hledger, Nat.succ_mul]
      exact Nat.add_le_add hconsumed (Nat.min_le_left _ _)
    · intro entry hentry
      obtain ⟨pieceMaterial, harea, parent, hparent, successor, cavities, hmade, rfl⟩ :=
        SearchContext.searchDepth_beam hroom hsearch hentry
      exact hmade.materialRight (hmaterial parent hparent) harea
  · intro emitted depth loop context start cache cache' hinv _ _ _ _
    exact hinv

/-! ## §3  Completions -/

/-- Placing and leaving out some pieces, one after the other, anywhere. -/
inductive Completes : CapacityState heap → List (IrregularPreparedPiece F) →
    CapacityState heap → Prop
  | done (state : CapacityState heap) : Completes state [] state
  | place {state final : CapacityState heap} {piece : IrregularPreparedPiece F}
      {rest : List (IrregularPreparedPiece F)} (placed : PlacedArc heap)
      (h : Completes (state.withPlacement rest placed
        (intrinsicCapacityPreparedPieceId piece)) rest final) :
      Completes state (piece :: rest) final
  | leave {state final : CapacityState heap} {piece : IrregularPreparedPiece F}
      {rest : List (IrregularPreparedPiece F)}
      (h : Completes (state.withUnplacedPiece rest
        (intrinsicCapacityPreparedPieceId piece)) rest final) :
      Completes state (piece :: rest) final

/-- A completion places some of the ids left, in their order. -/
theorem Completes.placementOrder {state final : CapacityState heap}
    {pieces : List (IrregularPreparedPiece F)} (h : Completes state pieces final) :
    ∃ added, final.placementOrder = state.placementOrder ++ added ∧
      added.Sublist (pieces.map intrinsicCapacityPreparedPieceId) := by
  induction h with
  | done state => exact ⟨[], (List.append_nil _).symm, List.Sublist.refl _⟩
  | @place state final piece rest placed _ ih =>
      obtain ⟨added, hfinal, hadded⟩ := ih
      exact ⟨intrinsicCapacityPreparedPieceId piece :: added,
        hfinal.trans (List.append_assoc _ [_] added), hadded.cons_cons _⟩
  | @leave state final piece rest _ ih =>
      obtain ⟨added, hfinal, hadded⟩ := ih
      exact ⟨added, hfinal, hadded.cons _⟩

/-- An endpoint counts and weighs what its state placed. -/
theorem materializeEndpoint_metrics {authority : LayoutAuthority heap}
    {input : MaterializeIntrinsicCapacityEndpointInput heap (IrregularPreparedPiece F)}
    {cache cache' : IntrinsicCapacityCavityCache F}
    {endpoint : IntrinsicCapacityEndpoint heap}
    (h : materializeIntrinsicCapacityEndpoint authority input cache =
      (some endpoint, cache')) :
    endpoint.metrics.placedCount = input.state.placementOrder.length ∧
      endpoint.metrics.placedDoubledMaterialAreaGrid2 =
        materialOf input.materialAreasByPieceId input.state.placementOrder := by
  unfold materializeIntrinsicCapacityEndpoint at h
  dsimp only at h
  split at h
  · next hempty =>
    cases h
    rw [List.isEmpty_iff.mp hempty]
    exact ⟨rfl, rfl⟩
  · split at h
    · cases h
    · obtain ⟨hendpoint, -⟩ := Prod.mk.inj h
      obtain ⟨material, hmaterial, hendpoint⟩ := Option.bind_eq_some_iff.mp hendpoint
      obtain ⟨selected, -, hendpoint⟩ := Option.bind_eq_some_iff.mp hendpoint
      obtain ⟨envelope, -, hendpoint⟩ := Option.bind_eq_some_iff.mp hendpoint
      cases hendpoint
      exact ⟨rfl, (materialOf_of_sum hmaterial).symm⟩

/-! ## §4  Bounds -/

/-- The bounds of a successor against an incumbent. -/
def attainableBelow (incumbent : IntrinsicCapacityEndpoint heap) (remainingCount : ℕ)
    (remainingMaterial : ℤ) (successor : CapacityEntry heap) : Prop :=
  let attainableCount := successor.state.placementOrder.length + remainingCount
  attainableCount < incumbent.metrics.placedCount ∨
    attainableCount = incumbent.metrics.placedCount ∧
      successor.placedDoubledMaterialAreaGrid2 + remainingMaterial <
        incumbent.metrics.placedDoubledMaterialAreaGrid2

/-- **What is dropped** is below the incumbent by its bounds. -/
theorem attainableBelow_of_pruned {incumbent : Option (IntrinsicCapacityEndpoint heap)}
    {remainingCount : ℕ} {remainingMaterial : ℤ} {successor : CapacityEntry heap}
    {successors : List (CapacityEntry heap)} (hmem : successor ∈ successors) :
    ∀ {counters : IntrinsicCapacitySearchCounters},
      successor ∉ (DepthContext.pruneSuccessors incumbent remainingCount
        remainingMaterial successors counters).1 →
      ∃ endpoint, incumbent = some endpoint ∧
        attainableBelow endpoint remainingCount remainingMaterial successor := by
  induction successors with
  | nil => exact absurd hmem List.not_mem_nil
  | cons first successors ih =>
      intro counters h
      unfold DepthContext.pruneSuccessors at h
      split at h
      · -- nothing is dropped without an incumbent
        rcases List.mem_cons.mp hmem with rfl | hmem
        · exact absurd List.mem_cons_self h
        · exact ih hmem fun hrest => h (List.mem_cons_of_mem _ hrest)
      · next endpoint =>
        dsimp only at h
        split at h
        · next hcount =>
          rcases List.mem_cons.mp hmem with rfl | hmem
          · exact ⟨endpoint, rfl, .inl hcount⟩
          · exact ih hmem h
        · split at h
          · next hmaterial =>
            rcases List.mem_cons.mp hmem with rfl | hmem
            · exact ⟨endpoint, rfl, .inr hmaterial⟩
            · exact ih hmem h
          · rcases List.mem_cons.mp hmem with rfl | hmem
            · exact absurd List.mem_cons_self h
            · exact ih hmem fun hrest => h (List.mem_cons_of_mem _ hrest)

/-- Fewer pieces, or as many and less material, is strictly worse. -/
theorem compare_eq_gt_of_less {authority : LayoutAuthority heap}
    {endpoint incumbent : IntrinsicCapacityEndpoint heap}
    (h : endpoint.metrics.placedCount < incumbent.metrics.placedCount ∨
      endpoint.metrics.placedCount = incumbent.metrics.placedCount ∧
        endpoint.metrics.placedDoubledMaterialAreaGrid2 <
          incumbent.metrics.placedDoubledMaterialAreaGrid2) :
    compareIntrinsicCapacityEndpoints authority endpoint incumbent = .gt := by
  unfold compareIntrinsicCapacityEndpoints
  rcases h with hcount | ⟨hcount, hmaterial⟩
  · rw [compare_gt_iff_gt.mpr hcount]
    rfl
  · rw [hcount, compare_eq_iff_eq.mpr rfl, compare_gt_iff_gt.mpr hmaterial]
    rfl

/-- A completion of a successor below an incumbent is below it. -/
theorem Completes.staysBelow {incumbent : IntrinsicCapacityEndpoint heap}
    {areas : MaterialAreas} {pieces : List (IrregularPreparedPiece F)}
    {successor : CapacityEntry heap} {final : CapacityState heap}
    (h : Completes successor.state pieces final)
    (hareas : NonNegativeAreas areas (pieces.map intrinsicCapacityPreparedPieceId))
    (hmaterial : materialOf areas successor.state.placementOrder =
      successor.placedDoubledMaterialAreaGrid2)
    (hbelow : attainableBelow incumbent pieces.length
      (materialOf areas (pieces.map intrinsicCapacityPreparedPieceId)) successor) :
    final.placementOrder.length < incumbent.metrics.placedCount ∨
      final.placementOrder.length = incumbent.metrics.placedCount ∧
        materialOf areas final.placementOrder <
          incumbent.metrics.placedDoubledMaterialAreaGrid2 := by
  obtain ⟨added, hfinal, hadded⟩ := h.placementOrder
  have hcount : added.length ≤ pieces.length := by
    have := hadded.length_le
    rwa [List.length_map] at this
  have hmore := materialOf_sublist hareas hadded
  rw [hfinal, List.length_append, materialOf_append, hmaterial]
  rcases hbelow with hbelow | ⟨hequal, hless⟩
  · omega
  · by_cases hfull : added.length = pieces.length
    · rw [hfull]
      exact .inr ⟨hequal, by omega⟩
    · exact .inl (by omega)

/-- **Pruning is admissible.**  A successor that a reachable depth drops by its
attainable bounds has no completion whose endpoint is better than, or even as good
as, the incumbent. -/
theorem attainablePrune_admissible {subsystems : SearchSubsystems heap}
    {identities : CheckpointIdentities heap} {input : ColdSearchInput heap}
    (hareas : NonNegativeAreas input.materialAreasByPieceId input.preparedIds)
    {emitted : Bool} {call : SearchCall heap} {depth : ℕ} {loop : SearchLoop heap}
    (hreached : LoopReached subsystems identities input (fun _ => True) emitted call depth
      loop)
    {context : SearchContext heap}
    (hcontext : makeSearchContext subsystems input = .ok context)
    {piece : IrregularPreparedPiece F} (hpiece : input.preparedPieces[depth]? = some piece)
    {expansion : DepthExpansion heap}
    (hexpand : context.expandDepth depth piece loop.progress.beam loop.progress.counters
      loop.progress.consumedPlacementEvaluations = .ok expansion)
    {successor : CapacityEntry heap} (hmade : successor ∈ expansion.successors)
    (hdropped : successor ∉ (context.survivors depth expansion).1) :
    ∃ incumbent, input.incumbent = some incumbent ∧
      ∀ final, Completes successor.state successor.state.remainingPreparedPieces final →
      ∀ {endpointInput : MaterializeIntrinsicCapacityEndpointInput heap
          (IrregularPreparedPiece F)}
        {cache cache' : IntrinsicCapacityCavityCache F}
        {endpoint : IntrinsicCapacityEndpoint heap},
        endpointInput.state = final →
        endpointInput.materialAreasByPieceId = input.materialAreasByPieceId →
        materializeIntrinsicCapacityEndpoint subsystems.toLayoutAuthority endpointInput
          cache = (some endpoint, cache') →
        compareIntrinsicCapacityEndpoints subsystems.toLayoutAuthority endpoint
          incumbent = .gt := by
  have hmaterial := hreached.materialRight
  have hroom := room_of_consumed_le hreached.beamPartition.consumed hpiece
  obtain ⟨rfl, rfl, hcontext⟩ := makeSearchContext_ok hcontext
  obtain ⟨pieceMaterial, harea, hinv⟩ := SearchContext.expandDepth_ok hroom hexpand
  obtain ⟨parent, hparent, hsuccessor⟩ := hinv.successors successor hmade
  have hright := hsuccessor.materialRight (hmaterial parent hparent) harea
  have hremaining : successor.state.remainingPreparedPieces =
      context.input.preparedPieces.drop (depth + 1) := by
    cases hsuccessor <;> rfl
  obtain ⟨incumbent, hincumbent, hbelow⟩ := attainableBelow_of_pruned hmade hdropped
  -- the bounds are the number and the material of the pieces left
  have hids : (context.input.preparedPieces.drop (depth + 1)).map
      intrinsicCapacityPreparedPieceId = context.input.preparedIds.drop (depth + 1) :=
    List.map_drop
  rw [suffixMaterialSums_getD hcontext, ← hids, ← List.length_drop] at hbelow
  refine ⟨incumbent, hincumbent, ?_⟩
  intro final hcompletes endpointInput cache cache' endpoint hstate hsame hendpoint
  rw [hremaining] at hcompletes
  obtain ⟨hcount, hmetrics⟩ := materializeEndpoint_metrics hendpoint
  refine compare_eq_gt_of_less ?_
  rw [hcount, hmetrics, hstate, hsame]
  refine hcompletes.staysBelow ?_ (materialOf_of_sum hright) hbelow
  intro pieceId hpieceId
  rw [hids] at hpieceId
  exact hareas pieceId (List.mem_of_mem_drop hpieceId)

/-! ## §5  A successor that is dropped -/

/-- An endpoint that places all three squares. -/
def completeIncumbent : IntrinsicCapacityEndpoint squareHeap where
  origin := .coldSearch
  sourceRole := none
  prefixDepth := none
  placedPreparedIds := ["a", "b", "c"]
  unplacedPreparedIds := []
  selectedRotationDeg := .zero
  canonicalGeometryIdentity := "abc"
  canonicalGeometryHash := "abc"
  placedCollisionGeometries := []
  metrics := ⟨3, 6, 0, 0, 0, 0, 0, 0, 0, 0, 0, 0⟩

/-- The three squares against that endpoint. -/
def incumbentSquares : ColdSearchInput squareHeap :=
  { threeSquares with incumbent := some completeIncumbent }

/-- At the second square the only successor leaves it out, and is dropped. -/
def dropsTheSkip : Bool :=
  match makeSearchContext (crowdedSubsystems 0) incumbentSquares with
  | .error _ => false
  | .ok context =>
      match laneStart context ∅ with
      | (.error _, _) => false
      | (.ok start, cache) =>
          match context.expandDepth 1 (squarePiece "b")
              (freshLoop start cache).progress.beam (freshLoop start cache).progress.counters
              (freshLoop start cache).progress.consumedPlacementEvaluations with
          | .error _ => false
          | .ok expansion =>
              !expansion.successors.isEmpty && (context.survivors 1 expansion).1.isEmpty

/-- Leaving out the second square cannot place three. -/
theorem attainablePrune_admissible_threeSquares :
    ∃ successor : CapacityEntry squareHeap, ∀ final,
      Completes successor.state successor.state.remainingPreparedPieces final →
      ∀ {cache cache' : IntrinsicCapacityCavityCache ℚ}
        {endpoint : IntrinsicCapacityEndpoint squareHeap},
        materializeIntrinsicCapacityEndpoint (crowdedSubsystems 0).toLayoutAuthority
          (endpointInput incumbentSquares .capacityWarmPrefix final) cache =
            (some endpoint, cache') →
        compareIntrinsicCapacityEndpoints (crowdedSubsystems 0).toLayoutAuthority endpoint
          completeIncumbent = .gt := by
  have hdrops : dropsTheSkip = true := by decide +kernel
  unfold dropsTheSkip at hdrops
  split at hdrops
  · cases hdrops
  · next context hcontext =>
    split at hdrops
    · cases hdrops
    · next start cache hstart =>
      split at hdrops
      · cases hdrops
      · next expansion hexpand =>
        obtain ⟨hmade, hdropped⟩ := Bool.and_eq_true_iff.mp hdrops
        obtain ⟨successor, hmem⟩ := List.exists_mem_of_ne_nil expansion.successors (by
          rw [Bool.not_eq_true'] at hmade
          exact List.isEmpty_eq_false_iff.mp hmade)
        have hnot : successor ∉ (context.survivors 1 expansion).1 := by
          rw [List.isEmpty_iff.mp hdropped]
          exact List.not_mem_nil
        have hreached : LoopReached (crowdedSubsystems 0) (plainIdentities _)
            incumbentSquares (fun _ => True) true ⟨none, none⟩ 1 (freshLoop start cache) :=
          .start (.fresh none) trivial hcontext hstart
            fun _ hmem => absurd hmem (Option.not_mem_none _)
        obtain ⟨incumbent, hincumbent, hworse⟩ := attainablePrune_admissible
          (by unfold NonNegativeAreas; decide +kernel) hreached hcontext rfl hexpand hmem
          hnot
        obtain rfl := Option.some.inj hincumbent
        exact ⟨successor, fun final hfinal _ _ _ hendpoint =>
          hworse final hfinal rfl rfl hendpoint⟩

end PolygonNesting
