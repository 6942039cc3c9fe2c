import Mathlib.Algebra.Order.BigOperators.Group.List
import Mathlib.Data.List.Dedup
import PolygonNesting.Capacity.Reachable

set_option linter.unusedSectionVars false

/-!
# The partition invariant

A beam state at depth `d` has placed or left out exactly the first `d` prepared
ids, and its remaining pieces are the rest.  In a lane whose checkpoints were all
emitted by the search both lists keep the prepared order; a checkpoint from
elsewhere that the validator accepts is a partition, but may list its ids in any
order.

Endpoints are made from the placed ids alone, so the invariant makes every
endpoint a partition of the request.
-/

namespace PolygonNesting

open ResumableLoop

variable {F : Type} [LinearOrder F] [Zero F] [One F] [Add F] [Sub F] [Neg F]
  [Mul F] [Div F] [JsMath F] {heap : ℕ → IrregularPlacedPiece F}

/-! ## §1  The invariant -/

/-- Placed and unplaced ids are the first prepared ids, the pieces left are the
rest. -/
structure PartitionAt (input : ColdSearchInput heap) (depth : ℕ)
    (state : CapacityState heap) : Prop where
  ids : (state.placementOrder ++ state.unplacedPieceIds).Perm
    (input.preparedIds.take depth)
  remaining : state.remainingPreparedPieces.map intrinsicCapacityPreparedPieceId =
    input.preparedIds.drop depth

/-- Prepared order from a depth on: some of the ids before it in any order, then
ids after it in prepared order. -/
def OrderedFrom (input : ColdSearchInput heap) (origin depth : ℕ)
    (ids : List PieceId) : Prop :=
  ∃ before after, ids = before ++ after ∧
    (∀ pieceId ∈ before, pieceId ∈ input.preparedIds.take origin) ∧
    after.Sublist ((input.preparedIds.take depth).drop origin)

/-- Both lists are in prepared order from a depth on. -/
structure KeepsOrder (input : ColdSearchInput heap) (origin depth : ℕ)
    (state : CapacityState heap) : Prop where
  placed : OrderedFrom input origin depth state.placementOrder
  unplaced : OrderedFrom input origin depth state.unplacedPieceIds

section
variable {input : ColdSearchInput heap} {depth : ℕ} {state : CapacityState heap}

theorem PartitionAt.disjoint (h : PartitionAt input depth state)
    (hids : input.preparedIds.Nodup) :
    List.Disjoint state.placementOrder state.unplacedPieceIds :=
  List.disjoint_of_nodup_append
    (h.ids.nodup_iff.mpr (hids.sublist (List.take_sublist _ _)))

theorem PartitionAt.placed_nodup (h : PartitionAt input depth state)
    (hids : input.preparedIds.Nodup) : state.placementOrder.Nodup :=
  (h.ids.nodup_iff.mpr (hids.sublist (List.take_sublist _ _))).of_append_left

theorem PartitionAt.placed_subset (h : PartitionAt input depth state) :
    ∀ pieceId ∈ state.placementOrder, pieceId ∈ input.preparedIds := by
  intro pieceId hmem
  exact List.mem_of_mem_take (h.ids.subset (List.mem_append_left _ hmem))

/-- The id of the next piece ends the first ids of the next depth. -/
theorem take_preparedIds_succ {piece : IrregularPreparedPiece F}
    (hpiece : input.preparedPieces[depth]? = some piece) :
    input.preparedIds.take (depth + 1) =
      input.preparedIds.take depth ++ [intrinsicCapacityPreparedPieceId piece] := by
  have hget : input.preparedIds[depth]? = some (intrinsicCapacityPreparedPieceId piece) := by
    unfold ColdSearchInput.preparedIds
    rw [List.getElem?_map, hpiece]
    rfl
  rw [List.take_add_one, hget]
  rfl

theorem PartitionAt.skip (h : PartitionAt input depth state)
    {piece : IrregularPreparedPiece F}
    (hpiece : input.preparedPieces[depth]? = some piece) :
    PartitionAt input (depth + 1)
      (state.withUnplacedPiece (input.preparedPieces.drop (depth + 1))
        (intrinsicCapacityPreparedPieceId piece)) where
  ids := by
    rw [take_preparedIds_succ hpiece]
    show (state.placementOrder ++ (state.unplacedPieceIds ++ [_])).Perm _
    rw [← List.append_assoc]
    exact h.ids.append_right _
  remaining := List.map_drop

theorem PartitionAt.place (h : PartitionAt input depth state)
    {piece : IrregularPreparedPiece F}
    (hpiece : input.preparedPieces[depth]? = some piece) (placed : PlacedArc heap) :
    PartitionAt input (depth + 1)
      (state.withPlacement (input.preparedPieces.drop (depth + 1)) placed
        (intrinsicCapacityPreparedPieceId piece)) where
  ids := by
    rw [take_preparedIds_succ hpiece]
    show ((state.placementOrder ++ [_]) ++ state.unplacedPieceIds).Perm _
    refine List.Perm.trans ?_ (h.ids.append_right [intrinsicCapacityPreparedPieceId piece])
    rw [List.append_assoc, List.append_assoc]
    exact List.perm_append_comm.append_left _
  remaining := List.map_drop

/-- One more id of the prepared order, at the end. -/
theorem OrderedFrom.snoc {origin : ℕ} {ids : List PieceId}
    (h : OrderedFrom input origin depth ids) (horigin : origin ≤ depth)
    {piece : IrregularPreparedPiece F}
    (hpiece : input.preparedPieces[depth]? = some piece) :
    OrderedFrom input origin (depth + 1)
        (ids ++ [intrinsicCapacityPreparedPieceId piece]) ∧
      OrderedFrom input origin (depth + 1) ids := by
  obtain ⟨before, after, rfl, hbefore, hafter⟩ := h
  obtain ⟨hdepth, -⟩ := List.getElem?_eq_some_iff.mp hpiece
  have hdrop : (input.preparedIds.take (depth + 1)).drop origin =
      (input.preparedIds.take depth).drop origin ++
        [intrinsicCapacityPreparedPieceId piece] := by
    rw [take_preparedIds_succ hpiece, List.drop_append_of_le_length]
    rw [List.length_take]
    unfold ColdSearchInput.preparedIds
    rw [List.length_map]
    omega
  constructor
  · refine ⟨before, after ++ [_], List.append_assoc _ _ _, hbefore, ?_⟩
    rw [hdrop]
    exact hafter.append_right [intrinsicCapacityPreparedPieceId piece]
  · refine ⟨before, after, rfl, hbefore, ?_⟩
    rw [hdrop]
    exact hafter.trans (List.sublist_append_left _ _)

theorem KeepsOrder.skip {origin : ℕ} (h : KeepsOrder input origin depth state)
    (horigin : origin ≤ depth) {piece : IrregularPreparedPiece F}
    (hpiece : input.preparedPieces[depth]? = some piece) :
    KeepsOrder input origin (depth + 1)
      (state.withUnplacedPiece (input.preparedPieces.drop (depth + 1))
        (intrinsicCapacityPreparedPieceId piece)) where
  placed := (h.placed.snoc horigin hpiece).2
  unplaced := (h.unplaced.snoc horigin hpiece).1

theorem KeepsOrder.place {origin : ℕ} (h : KeepsOrder input origin depth state)
    (horigin : origin ≤ depth) {piece : IrregularPreparedPiece F}
    (hpiece : input.preparedPieces[depth]? = some piece) (placed : PlacedArc heap) :
    KeepsOrder input origin (depth + 1)
      (state.withPlacement (input.preparedPieces.drop (depth + 1)) placed
        (intrinsicCapacityPreparedPieceId piece)) where
  placed := (h.placed.snoc horigin hpiece).1
  unplaced := (h.unplaced.snoc horigin hpiece).2

end

/-- Distinct ids in another order are a request partition. -/
theorem isRequestPartition_of_perm {partition ids : List PieceId} (hids : ids.Nodup)
    (hperm : partition.Perm ids) : isRequestPartition partition ids = true := by
  unfold isRequestPartition
  rw [Bool.and_eq_true, decide_eq_true_eq, decide_eq_true_eq]
  constructor
  · exact congrArg List.length (List.Nodup.dedup (hperm.nodup_iff.mpr hids))
  · exact mergeSort_keyLe_eq_iff.mpr hperm

/-! ## §2  Reachable beams -/

theorem advance_ok {context : SearchContext heap} {recorded : Bool} {depth : ℕ}
    {piece : IrregularPreparedPiece F} {loop next : SearchLoop heap}
    (h : context.advance recorded depth piece loop = .ok next) :
    ∃ ledger, context.searchDepth depth piece loop.progress = .ok (next.progress, ledger) ∧
      next.accounts = loop.accounts.record recorded ledger next.progress.beam := by
  unfold SearchContext.advance at h
  obtain ⟨⟨progress, ledger⟩, hsearch, h⟩ := except_bind_eq_ok h
  cases h
  exact ⟨ledger, hsearch, rfl⟩

/-- The consumption of a checkpoint is within the quotas of its depths. -/
theorem CheckpointValid.consumed_le {identities : CheckpointIdentities heap}
    {context : SearchContext heap} {fingerprint : String}
    {role : IntrinsicAnytimeProducerRole} {checkpoint : IntrinsicAnytimeCheckpoint heap}
    (h : CheckpointValid identities context fingerprint role checkpoint) :
    checkpoint.budgetLedgers.totalConsumedPlacementEvaluations ≤
      checkpoint.nextDepth * depthQuota := by
  rw [← h.consumed, ← h.ledgerLength]
  have hsum := List.sum_le_card_nsmul
    (checkpoint.budgetLedgers.perDepth.map fun ledger =>
      ledger.consumedPlacementEvaluations) depthQuota (by
    intro consumed hmem
    obtain ⟨ledger, hledger, rfl⟩ := List.mem_map.mp hmem
    obtain ⟨index, hindex⟩ := List.getElem?_of_mem hledger
    have hgood := h.ledgers _ (List.mk_mem_zipIdx_iff_getElem?.mpr hindex)
    unfold badLedger at hgood
    simp only [Bool.or_eq_false_iff, decide_eq_false_iff_not, Nat.not_lt] at hgood
    exact hgood.1.2)
  rw [List.length_map] at hsum
  exact hsum

/-- What a validated entry says about its ids. -/
theorem DecisionStateValid.partitionAt {identities : CheckpointIdentities heap}
    {context : SearchContext heap} {nextDepth : ℕ}
    {entry : IntrinsicAnytimeDecisionState heap}
    (h : DecisionStateValid identities context nextDepth entry) :
    PartitionAt context.input nextDepth entry.state where
  ids := by
    have hpartition := h.partition
    unfold isRequestPartition at hpartition
    rw [Bool.and_eq_true, decide_eq_true_eq, decide_eq_true_eq, h.placed, h.pending,
      h.deferred, h.skipped, List.append_nil] at hpartition
    -- the sorted lists have the same members, and the pending ids cancel
    have hperm := mergeSort_keyLe_eq_iff.mp hpartition.2
    have hsplit := hperm.trans (List.Perm.of_eq
      (List.take_append_drop nextDepth context.input.preparedIds).symm)
    rw [List.append_assoc] at hsplit
    refine (List.perm_append_right_iff (context.input.preparedIds.drop nextDepth)).mp
      (List.Perm.trans ?_ hsplit)
    rw [List.append_assoc]
    exact List.perm_append_comm.append_left _
  remaining := h.statePending

/-- The invariant of a reachable loop: a partition at its depth, in order from the
last checkpoint that came from elsewhere, and a consumption within the quotas. -/
structure BeamPartition (input : ColdSearchInput heap) (emitted : Bool) (depth : ℕ)
    (progress : SearchProgress heap) : Prop where
  partition : ∀ entry ∈ progress.beam, PartitionAt input depth entry.state
  order : ∃ origin ≤ depth, (emitted = true → origin = 0) ∧
    ∀ entry ∈ progress.beam, KeepsOrder input origin depth entry.state
  consumed : progress.consumedPlacementEvaluations ≤ depth * depthQuota

theorem LaneStarts.partition {context : SearchContext heap} {start : LaneStart heap}
    {cache cache' : IntrinsicCapacityCavityCache F}
    (h : LaneStarts context cache start cache') :
    PartitionAt context.input start.initialDepth start.entry.state ∧
      KeepsOrder context.input 0 start.initialDepth start.entry.state := by
  have hnone : ∀ pieceId ∈ ([] : List PieceId),
      pieceId ∈ context.input.preparedIds.take 0 :=
    fun _ hmem => absurd hmem List.not_mem_nil
  cases h with
  | cold gridSpan hseed hspan =>
      exact ⟨⟨List.Perm.refl _, rfl⟩, ⟨[], [], rfl, hnone, List.nil_sublist _⟩,
        ⟨[], [], rfl, hnone, List.nil_sublist _⟩⟩
  | warm seed key gridSpan cavities cache' hseed hkey hspan hunplaced horder hremaining =>
      refine ⟨⟨?_, hremaining⟩, ⟨[], _, rfl, hnone, ?_⟩, ⟨[], _, rfl, hnone, ?_⟩⟩
      · show (seed.state.placementOrder ++ seed.state.unplacedPieceIds).Perm _
        rw [hunplaced, horder, List.append_nil]
      · show seed.state.placementOrder.Sublist _
        rw [horder]
        exact List.Sublist.refl _
      · show seed.state.unplacedPieceIds.Sublist _
        rw [hunplaced]
        exact List.nil_sublist _

/-- The total cap leaves room for the quota of the depth. -/
theorem room_of_consumed_le {input : ColdSearchInput heap} {depth consumed : ℕ}
    {piece : IrregularPreparedPiece F} (h : consumed ≤ depth * depthQuota)
    (hpiece : input.preparedPieces[depth]? = some piece) :
    consumed + depthQuota ≤ input.placementEvaluationCap := by
  obtain ⟨hdepth, -⟩ := List.getElem?_eq_some_iff.mp hpiece
  have hquota : (depth + 1) * depthQuota ≤ input.preparedPieces.length * depthQuota :=
    Nat.mul_le_mul_right _ hdepth
  have hcap : input.preparedPieces.length * depthQuota ≤ input.placementEvaluationCap :=
    Nat.le_max_right _ _
  rw [Nat.succ_mul] at hquota
  omega

/-- **A depth keeps the partition.** -/
theorem BeamPartition.step {subsystems : SearchSubsystems heap}
    {input : ColdSearchInput heap} {context : SearchContext heap} {emitted : Bool}
    {depth : ℕ} {piece : IrregularPreparedPiece F} {progress next : SearchProgress heap}
    {ledger : IntrinsicAnytimeDepthBudgetLedger}
    (h : BeamPartition input emitted depth progress)
    (hcontext : makeSearchContext subsystems input = .ok context)
    (hpiece : input.preparedPieces[depth]? = some piece)
    (hstep : context.searchDepth depth piece progress = .ok (next, ledger)) :
    BeamPartition input emitted (depth + 1) next := by
  obtain ⟨-, rfl, -⟩ := makeSearchContext_ok hcontext
  have hroom := room_of_consumed_le h.consumed hpiece
  refine ⟨?_, ?_, ?_⟩
  · intro entry hentry
    obtain ⟨pieceMaterial, -, parent, hparent, successor, cavities, hmade, rfl⟩ :=
      SearchContext.searchDepth_beam hroom hstep hentry
    cases hmade with
    | skip => exact (h.partition parent hparent).skip hpiece
    | place reference gridSpan key hspan hkey =>
        exact (h.partition parent hparent).place hpiece _
  · obtain ⟨origin, horigin, hemitted, horder⟩ := h.order
    refine ⟨origin, Nat.le_succ_of_le horigin, hemitted, ?_⟩
    intro entry hentry
    obtain ⟨pieceMaterial, -, parent, hparent, successor, cavities, hmade, rfl⟩ :=
      SearchContext.searchDepth_beam hroom hstep hentry
    cases hmade with
    | skip => exact (horder parent hparent).skip horigin hpiece
    | place reference gridSpan key hspan hkey =>
        exact (horder parent hparent).place horigin hpiece _
  · obtain ⟨hledger, hconsumed⟩ := SearchContext.searchDepth_ledger hroom hstep
    rw [hconsumed, hledger, Nat.succ_mul]
    exact Nat.add_le_add h.consumed (Nat.min_le_left _ _)

/-- A fresh lane is a partition at its first depth. -/
theorem LaneStarts.beamPartition {context : SearchContext heap} {start : LaneStart heap}
    {cache cache' : IntrinsicCapacityCavityCache F}
    (h : LaneStarts context cache start cache') :
    BeamPartition context.input true start.initialDepth
      (freshLoop start cache').progress := by
  obtain ⟨hpartition, horder⟩ := h.partition
  refine ⟨?_, ⟨0, Nat.zero_le _, fun _ => rfl, ?_⟩, Nat.zero_le _⟩
  · intro entry hentry
    rw [List.mem_singleton.mp hentry]
    exact hpartition
  · intro entry hentry
    rw [List.mem_singleton.mp hentry]
    exact horder

/-- **Every reachable beam is a partition at its depth.** -/
theorem LoopReached.beamPartition {subsystems : SearchSubsystems heap}
    {identities : CheckpointIdentities heap} {input : ColdSearchInput heap}
    {caches : IntrinsicCapacityCavityCache F → Prop} {emitted : Bool}
    {call : SearchCall heap} {depth : ℕ} {loop : SearchLoop heap}
    (h : LoopReached subsystems identities input caches emitted call depth loop) :
    BeamPartition input emitted depth loop.progress := by
  refine h.induction
    (motive := fun emitted _ depth loop => BeamPartition input emitted depth loop.progress)
    ?_ ?_ ?_ ?_
  · intro limit context start cache cache' _ hcontext hstart
    obtain ⟨-, rfl, -⟩ := makeSearchContext_ok hcontext
    have hpartition := hstart.beamPartition
    rw [hstart.initialDepth] at hpartition
    exact hpartition
  · intro context checkpoint fingerprint start cache cache' _ hcontext _ hvalid
    obtain ⟨-, rfl, -⟩ := makeSearchContext_ok hcontext
    have hpartition : ∀ entry ∈ (restoreLoop checkpoint cache').progress.beam,
        PartitionAt context.input checkpoint.nextDepth entry.state := by
      intro entry hentry
      obtain ⟨decision, hdecision, rfl⟩ := List.mem_map.mp hentry
      exact (validateFrontier_valid hvalid.entries decision hdecision).partitionAt
    refine ⟨hpartition, ⟨checkpoint.nextDepth, Nat.le_refl _,
      fun hemitted => absurd hemitted Bool.false_ne_true, ?_⟩, hvalid.consumed_le⟩
    intro entry hentry
    have hids := (hpartition entry hentry).ids
    exact ⟨⟨_, [], (List.append_nil _).symm,
        fun _ hmem => hids.subset (List.mem_append_left _ hmem), List.nil_sublist _⟩,
      ⟨_, [], (List.append_nil _).symm,
        fun _ hmem => hids.subset (List.mem_append_right _ hmem), List.nil_sublist _⟩⟩
  · intro emitted recorded depth loop next context piece hinv hcontext hpiece hadvance
    obtain ⟨ledger, hsearch, -⟩ := advance_ok hadvance
    exact hinv.step hcontext hpiece hsearch
  · intro emitted depth loop context start cache cache' hinv _ _ _ _
    exact ⟨hinv.partition, hinv.order, hinv.consumed⟩

/-! ## §3  Endpoints -/

/-- The ids of an endpoint partition the request. -/
def PartitionsRequest (input : ColdSearchInput heap)
    (endpoint : IntrinsicCapacityEndpoint heap) : Prop :=
  intrinsicCapacityEndpointPartitionsRequest endpoint.placedPreparedIds
    endpoint.unplacedPreparedIds input.preparedIds = true

/-- Distinct prepared ids and all the others partition the request. -/
theorem partitionsRequest_filter {placed ids : List PieceId} (hids : ids.Nodup)
    (hplaced : placed.Nodup) (hsubset : ∀ pieceId ∈ placed, pieceId ∈ ids) :
    intrinsicCapacityEndpointPartitionsRequest placed
      (ids.filter fun id => !placed.contains id) ids = true := by
  have hfilter : (ids.filter fun id => placed.contains id).Perm placed := by
    rw [List.perm_ext_iff_of_nodup (hids.filter _) hplaced]
    intro pieceId
    rw [List.mem_filter, List.contains_iff_mem]
    exact ⟨fun h => h.2, fun h => ⟨hsubset pieceId h, h⟩⟩
  have hsplit : (placed ++ ids.filter fun id => !placed.contains id).Perm ids :=
    (hfilter.symm.append_right _).trans
      (List.filter_append_perm (fun id => placed.contains id) ids)
  unfold intrinsicCapacityEndpointPartitionsRequest
  dsimp only
  rw [if_neg (not_not.mpr hsplit.length_eq),
    if_neg (not_not.mpr (congrArg List.length
      (List.Nodup.dedup (hsplit.nodup_iff.mpr hids)))), List.all_eq_true]
  intro pieceId hmem
  rw [List.contains_iff_mem]
  exact hsplit.subset hmem

theorem materializeEndpoint_ids {subsystems : SearchSubsystems heap}
    {input : ColdSearchInput heap} {role : IntrinsicAnytimeProducerRole}
    {state : CapacityState heap} {cache cache' : IntrinsicCapacityCavityCache F}
    {endpoint : IntrinsicCapacityEndpoint heap}
    (h : materializeIntrinsicCapacityEndpoint subsystems.toLayoutAuthority
      (endpointInput input role state) cache = (some endpoint, cache')) :
    endpoint.placedPreparedIds = state.placementOrder ∧
      endpoint.unplacedPreparedIds =
        input.preparedIds.filter fun id => !state.placementOrder.contains id := by
  unfold materializeIntrinsicCapacityEndpoint at h
  dsimp only at h
  split at h
  · next hempty =>
    cases h
    exact ⟨(List.isEmpty_iff.mp hempty).symm, rfl⟩
  · split at h
    · cases h
    · obtain ⟨hendpoint, -⟩ := Prod.mk.inj h
      obtain ⟨material, -, hendpoint⟩ := Option.bind_eq_some_iff.mp hendpoint
      obtain ⟨selected, -, hendpoint⟩ := Option.bind_eq_some_iff.mp hendpoint
      obtain ⟨envelope, -, hendpoint⟩ := Option.bind_eq_some_iff.mp hendpoint
      cases hendpoint
      exact ⟨rfl, rfl⟩

/-- What holds of every endpoint made from the states holds of every endpoint
kept. -/
theorem mem_collectEndpoints {subsystems : SearchSubsystems heap}
    {input : ColdSearchInput heap} {role : IntrinsicAnytimeProducerRole}
    {P : IntrinsicCapacityEndpoint heap → Prop} {states : List (CapacityState heap)}
    (hmade : ∀ state ∈ states, ∀ cache cache' endpoint,
      materializeIntrinsicCapacityEndpoint subsystems.toLayoutAuthority
        (endpointInput input role state) cache = (some endpoint, cache') → P endpoint) :
    ∀ {collection : EndpointCollection heap},
      (∀ hash endpoint, collection.byHash.lookup hash = some endpoint → P endpoint) →
      ∀ hash endpoint,
        (states.foldl (collectEndpoint subsystems input role)
          collection).byHash.lookup hash = some endpoint → P endpoint := by
  induction states with
  | nil =>
      intro collection h
      exact h
  | cons state states ih =>
      intro collection h
      refine ih (fun other hother => hmade other (List.mem_cons_of_mem _ hother)) ?_
      unfold collectEndpoint
      split
      · exact h
      · next endpoint cache' hmaterialize =>
        have hnew := hmade state List.mem_cons_self _ _ _ hmaterialize
        have hinsert : ∀ hash other, (collection.byHash.insert
            endpoint.canonicalGeometryHash endpoint).lookup hash = some other →
            P other := by
          intro hash other hlookup
          by_cases hhash : hash = endpoint.canonicalGeometryHash
          · rw [hhash, AList.lookup_insert] at hlookup
            obtain rfl := Option.some.inj hlookup
            exact hnew
          · rw [AList.lookup_insert_ne hhash] at hlookup
            exact h hash other hlookup
        unfold insertEndpointByHash
        dsimp only
        split
        · exact hinsert
        · split
          · exact hinsert
          · exact h

/-- The ranked endpoints are those kept. -/
theorem mem_rankedEndpoints {authority : LayoutAuthority heap}
    {byHash : AList fun _ : String => IntrinsicCapacityEndpoint heap}
    {endpoint : IntrinsicCapacityEndpoint heap}
    (h : endpoint ∈ rankedEndpoints authority byHash) :
    ∃ hash, byHash.lookup hash = some endpoint := by
  unfold rankedEndpoints at h
  rw [List.mem_mergeSort] at h
  obtain ⟨⟨hash, other⟩, hmem, rfl⟩ := List.mem_map.mp h
  exact ⟨hash, AList.mem_lookup_iff.mpr hmem⟩

/-- **Endpoints of partitions partition the request.** -/
theorem collectEndpoints_partition {subsystems : SearchSubsystems heap}
    {input : ColdSearchInput heap} (hids : input.preparedIds.Nodup)
    {role : IntrinsicAnytimeProducerRole} {states : List (CapacityState heap)}
    {depth : ℕ} (hstates : ∀ state ∈ states, PartitionAt input depth state)
    {cache : IntrinsicCapacityCavityCache F} {endpoint : IntrinsicCapacityEndpoint heap}
    (h : endpoint ∈ rankedEndpoints subsystems.toLayoutAuthority
      (collectEndpoints subsystems input role states cache).byHash) :
    PartitionsRequest input endpoint := by
  obtain ⟨hash, hlookup⟩ := mem_rankedEndpoints h
  refine mem_collectEndpoints (P := PartitionsRequest input) ?_ ?_ hash endpoint hlookup
  · intro state hstate cache cache' made hmade
    obtain ⟨hplaced, hunplaced⟩ := materializeEndpoint_ids hmade
    unfold PartitionsRequest
    rw [hplaced, hunplaced]
    exact partitionsRequest_filter hids ((hstates state hstate).placed_nodup hids)
      (hstates state hstate).placed_subset
  · intro hash made hmade
    rw [AList.lookup_empty] at hmade
    cases hmade

/-! ## §4  The lanes -/

/-- **The partition of the capacity search.**  Every entry of a reachable beam at
depth `d` has placed and left out exactly the first `d` prepared ids, each once,
and still has the rest to go; its lists are in prepared order from the last
checkpoint that came from elsewhere.  Every endpoint of a result, and every
endpoint made early from its checkpoint, partitions the request. -/
theorem capacitySearch_partitions {subsystems : SearchSubsystems heap}
    {identities : CheckpointIdentities heap} {input : ColdSearchInput heap}
    (hids : input.preparedIds.Nodup) {emitted : Bool} {call : SearchCall heap} :
    (∀ {depth : ℕ} {loop : SearchLoop heap},
      LoopReached subsystems identities input (fun _ => True) emitted call depth loop →
      ∃ origin ≤ depth, (emitted = true → origin = 0) ∧
        ∀ entry ∈ loop.progress.beam,
          List.Disjoint entry.state.placementOrder entry.state.unplacedPieceIds ∧
          PartitionAt input depth entry.state ∧
          KeepsOrder input origin depth entry.state) ∧
    (LaneCall subsystems identities input (fun _ => True) emitted call →
      ∀ {cache cache' : IntrinsicCapacityCavityCache F}
        {result : IntrinsicCapacitySearchResult heap},
        runIntrinsicCapacityColdSearch subsystems identities input call cache =
          .ok (result, cache') →
        (∀ endpoint ∈ result.endpoints, PartitionsRequest input endpoint) ∧
        ∀ checkpoint ∈ result.checkpoint, ∀ cache : IntrinsicCapacityCavityCache F,
          ∀ endpoint ∈ (materializeIntrinsicCapacityCheckpointEndpoints subsystems input
            checkpoint cache).1, PartitionsRequest input endpoint) := by
  constructor
  · intro depth loop hreached
    have hbeam := hreached.beamPartition
    obtain ⟨origin, horigin, hemitted, horder⟩ := hbeam.order
    refine ⟨origin, horigin, hemitted, fun entry hentry => ?_⟩
    have hpartition := hbeam.partition entry hentry
    exact ⟨hpartition.disjoint hids, hpartition, horder entry hentry⟩
  · intro hcall cache cache' result hresult
    obtain ⟨ended, hrun, hresult⟩ := map_eq_ok hresult
    have hreached := hcall.outcome_reached trivial hrun
    obtain ⟨-, -, hcontext, -⟩ := SearchCall.run_ok hrun
    obtain ⟨hsubsystems, hinput, -⟩ := makeSearchContext_ok hcontext
    have hstates : ∀ {depth : ℕ} {loop : SearchLoop heap},
        LoopReached subsystems identities input (fun _ => True) emitted call depth loop →
        ∀ state ∈ loop.progress.beam.map (fun entry => entry.state),
          PartitionAt input depth state := by
      intro depth loop hloop state hstate
      obtain ⟨entry, hentry, rfl⟩ := List.mem_map.mp hstate
      exact hloop.beamPartition.partition entry hentry
    unfold SearchCall.result at hresult
    split at hresult
    · next loop hended =>
      rw [hended] at hreached
      obtain ⟨depth, hloop, -⟩ := hreached
      obtain rfl : (ended.context.settle loop).1 = result := congrArg Prod.fst hresult
      refine ⟨?_, fun _ hmem => absurd hmem (Option.not_mem_none _)⟩
      intro endpoint hmem
      unfold SearchContext.settle at hmem
      rw [hsubsystems, hinput] at hmem
      exact collectEndpoints_partition hids (hstates hloop) hmem
    · next nextDepth loop hended =>
      rw [hended] at hreached
      obtain ⟨rfl, -⟩ := Prod.mk.inj hresult
      refine ⟨fun _ hmem => absurd hmem List.not_mem_nil, ?_⟩
      intro checkpoint hcheckpoint cache endpoint hmem
      obtain rfl := Option.some.inj hcheckpoint
      obtain ⟨hfrontier, -⟩ :=
        makeCheckpoint_fields call identities ended.context nextDepth loop
      unfold materializeIntrinsicCapacityCheckpointEndpoints at hmem
      rw [hfrontier, List.map_map] at hmem
      exact collectEndpoints_partition hids (hstates hreached.1) hmem

/-- Of the three squares. -/
theorem capacitySearch_partitions_threeSquares :
    ∃ ended cache', runIntrinsicCapacityColdSearch (crowdedSubsystems 5)
        (plainIdentities _) threeSquares ⟨none, none⟩ ∅ = .ok (ended, cache') ∧
      ∀ endpoint ∈ ended.endpoints, PartitionsRequest threeSquares endpoint := by
  obtain ⟨ended, loop, hrun, -⟩ := crowdedSettlement_ok
    (show crowdedSettlement 5 ⟨none, none⟩ ∅ = some .exhausted by decide +kernel)
  have hresult : runIntrinsicCapacityColdSearch (crowdedSubsystems 5)
      (plainIdentities _) threeSquares ⟨none, none⟩ ∅ =
        .ok ((SearchCall.mk none none).result (plainIdentities _) ended) := by
    unfold runIntrinsicCapacityColdSearch
    rw [hrun]
    rfl
  exact ⟨_, _, hresult,
    ((capacitySearch_partitions (by decide +kernel)).2 (.fresh none) hresult).1⟩

/-! ## §5  A frontier from elsewhere -/

/-- Three squares and an empty sheet to start from. -/
def threeSquaresCold : ColdSearchInput squareHeap :=
  { threeSquares with warmPrefixSeed := none }

def threeSquaresContext : SearchContext squareHeap :=
  ⟨crowdedSubsystems 0, threeSquaresCold, 1000, 1000, [6, 4, 2, 0]⟩

/-- The first two squares are left out, the second is listed first. -/
def swappedEntry : CapacityEntry squareHeap where
  state := IrregularBeamState.fromInput
    ⟨[squarePiece "c"], [], some ["b", "a"], none, [], none⟩
  placedDoubledMaterialAreaGrid2 := 0
  anchoredOccupiedKey := (IrregularBeamState.empty [squarePiece "c"] :
    CapacityState squareHeap).canonicalOccupiedGeometryKey
  gridSpan := ⟨0, 0⟩
  cavities := noCavities

/-- The checkpoint a search would make of that frontier. -/
def swappedCheckpoint : IntrinsicAnytimeCheckpoint squareHeap :=
  makeIntrinsicCapacityCheckpoint (plainIdentities _) threeSquaresContext false ""
    .capacityCold 2 ⟨[swappedEntry], { completedDepths := 2 }, 0, ∅⟩
    ⟨.exhausted, [⟨0, 0, false⟩, ⟨1, 0, false⟩], ⟨false, some 1⟩⟩

theorem swappedCheckpoint_accepted :
    validateIntrinsicCapacityCheckpoint (plainIdentities _) threeSquaresContext ""
      .capacityCold swappedCheckpoint = none := by
  have hentry : DecisionStateValid (plainIdentities _) threeSquaresContext 2
      (makeDecisionState (plainIdentities _) threeSquaresContext 2 swappedEntry) :=
    { metadata := rfl
      entryKeys := rfl
      index := rfl
      indexMatches := by decide +kernel
      placed := rfl
      pending := rfl
      pendingOrder := rfl
      statePending := by decide +kernel
      skipped := rfl
      deferred := rfl
      cursor := rfl
      pass := rfl
      deferralCounts := rfl
      partition := isRequestPartition_of_perm (by decide +kernel) (by decide +kernel)
      eligibility := rfl
      material := by decide +kernel
      span := by decide +kernel
      fit := by decide +kernel
      key := by decide +kernel }
  refine validateCheckpoint_eq_none.mpr ⟨rfl, .inr ?_⟩
  exact
    { integrity := rfl
      fingerprint := rfl
      role := rfl
      cohort := rfl
      bounds := rfl
      incumbent := rfl
      depthSafe := by decide +kernel
      depthPositive := by decide +kernel
      depthBeforeEnd := by decide +kernel
      resumePosition := rfl
      frontier := by
        show [makeDecisionState (plainIdentities _) threeSquaresContext 2
          swappedEntry] ≠ []
        exact List.cons_ne_nil _ _
      cap := rfl
      underCap := Nat.zero_le _
      ledgerLength := rfl
      ledgers := by decide +kernel
      consumed := rfl
      cohortPartial := rfl
      cohortComplete := rfl
      cohortExperimental := rfl
      deficitSafe := by decide +kernel
      deficit := rfl
      completed := rfl
      exhaustions := rfl
      counters := by decide +kernel
      noSkip := by decide +kernel
      entries := by
        refine validateFrontier_eq_none (fun cache => cache = ∅) ?_ ?_ rfl
        · intro entry hmem
          obtain rfl := List.mem_singleton.mp hmem
          exact hentry
        · rintro entry hmem cache rfl
          obtain rfl := List.mem_singleton.mp hmem
          exact ⟨⟨noCavities, rfl, rfl, rfl⟩, rfl⟩
      present := rfl
      noLoss := by decide +kernel }

theorem makeSearchContext_threeSquaresCold :
    makeSearchContext (crowdedSubsystems 0) threeSquaresCold = .ok threeSquaresContext := by
  have hgrid : toGridMm (1 : ℚ) = some 1000 := by decide +kernel
  have hsums : suffixMaterialSums threeSquaresCold.materialAreasByPieceId
      threeSquaresCold.preparedIds = some [6, 4, 2, 0] := by decide +kernel
  unfold makeSearchContext
  rw [show threeSquaresCold.sheet.width = 1 from rfl,
    show threeSquaresCold.sheet.height = 1 from rfl, hgrid, hsums]
  rfl

/-- The validator accepts it, and the loop it starts lists the second square
before the first. -/
theorem swappedCheckpoint_outOfOrder :
    threeSquaresCold.preparedIds.Nodup ∧
    ∃ loop, LoopReached (crowdedSubsystems 0) (plainIdentities _) threeSquaresCold
        (fun _ => True) false ⟨some swappedCheckpoint, none⟩ 2 loop ∧
      ∃ entry ∈ loop.progress.beam,
        ¬entry.state.unplacedPieceIds.Sublist (threeSquaresCold.preparedIds.take 2) := by
  have hspan : intrinsicCapacityStateGridSpan (IrregularBeamState.empty
      threeSquaresCold.preparedPieces : CapacityState squareHeap) = some ⟨0, 0⟩ := by decide +kernel
  have hstart : ∃ start, laneStart threeSquaresContext ∅ = (.ok start, ∅) := by
    unfold laneStart
    rw [show threeSquaresContext.input.warmPrefixSeed = none from rfl]
    dsimp only
    rw [show threeSquaresContext.input.preparedPieces = threeSquaresCold.preparedPieces
      from rfl, hspan]
    exact ⟨_, rfl⟩
  obtain ⟨start, hstart⟩ := hstart
  refine ⟨by decide +kernel, _, .start (.accepted _ none rfl) trivial
    makeSearchContext_threeSquaresCold hstart ?_, swappedEntry, ?_, by decide +kernel⟩
  · intro checkpoint hcheckpoint
    obtain rfl := Option.some.inj hcheckpoint
    exact swappedCheckpoint_accepted
  · show swappedEntry ∈ [swappedEntry]
    exact List.mem_singleton_self _

end PolygonNesting
