import PolygonNesting.Capacity.Comparators
import PolygonNesting.Capacity.Mode
import PolygonNesting.Capacity.Quanta

set_option linter.unusedSectionVars false

/-!
# Capacity mode selects an optimum

Whatever the lanes come to, the settled endpoint partitions the request, and no
valid base endpoint beats it.  The quality lane is heard only for a strictly
higher count, and warm lanes that are not admitted are not heard at all.
-/

namespace PolygonNesting

open Comparator

variable {F : Type} [LinearOrder F] [Zero F] [One F] [Add F] [Sub F] [Neg F]
  [Mul F] [Div F] [JsMath F] {heap : ℕ → IrregularPlacedPiece F}

/-! ## §1  The comparator -/

theorem placedCount_le_of_isLE {authority : LayoutAuthority heap}
    {first second : IntrinsicCapacityEndpoint heap}
    (h : (compareIntrinsicCapacityEndpoints authority first second).isLE) :
    second.metrics.placedCount ≤ first.metrics.placedCount := by
  by_contra hlt
  push Not at hlt
  have hgt : compare second.metrics.placedCount first.metrics.placedCount = .gt :=
    Nat.compare_eq_gt.2 hlt
  unfold compareIntrinsicCapacityEndpoints at h
  rw [hgt] at h
  cases h

/-! ## §2  The candidates -/

section

variable (subsystems : SearchSubsystems heap) (input : RunIntrinsicCapacityModeInput heap)
  (terminalization : IntrinsicCapacityPrefixTerminalization heap) (lanes : LaneOutcome heap)

theorem orderedPolicy_namespace (authority : LayoutAuthority heap) (preparedIds : List PieceId)
    (endpoints : List (IntrinsicCapacityEndpoint heap)) :
    OrderedPolicy (compareIntrinsicCapacityEndpoints authority)
      (partialNamespacePolicy authority preparedIds endpoints) :=
  ⟨fun _ _ => rfl, fun _ => rfl⟩

/-- An endpoint the partial namespace admits: its count is that of its ids, it partitions the
request, and it has an identity. -/
structure ValidEndpoint (preparedIds : List PieceId)
    (endpoint : IntrinsicCapacityEndpoint heap) : Prop where
  counted : endpoint.metrics.placedCount = endpoint.placedPreparedIds.length
  partitions : intrinsicCapacityEndpointPartitionsRequest endpoint.placedPreparedIds
    endpoint.unplacedPreparedIds preparedIds = true
  identified : endpoint.canonicalGeometryHash ≠ ""

theorem admitted_iff {authority : LayoutAuthority heap} {preparedIds : List PieceId}
    {endpoints : List (IntrinsicCapacityEndpoint heap)}
    {endpoint : IntrinsicCapacityEndpoint heap} :
    (∃ identityKey, Admitted (partialNamespacePolicy authority preparedIds endpoints) endpoint
      identityKey) ↔ ValidEndpoint preparedIds endpoint := by
  constructor
  · rintro ⟨identityKey, hvalid, hidentified, hnonempty⟩
    obtain ⟨hcounted, hpartitions⟩ := Bool.and_eq_true_iff.1 hvalid
    obtain rfl := Option.some.inj hidentified
    exact ⟨by simpa using hcounted, hpartitions, hnonempty⟩
  · rintro ⟨hcounted, hpartitions, hidentified⟩
    refine ⟨endpoint.canonicalGeometryHash, ?_, rfl, hidentified⟩
    exact Bool.and_eq_true_iff.2 ⟨by simpa using hcounted, hpartitions⟩

variable [Std.TransCmp subsystems.localeCompareKeys]

/-- A retained namespace holds valid endpoints it was offered. -/
theorem retain_valid {endpoints : List (IntrinsicCapacityEndpoint heap)}
    {endpoint : IntrinsicCapacityEndpoint heap}
    (h : endpoint ∈ retainIntrinsicAnytimeArchiveNamespace
      (partialNamespacePolicy subsystems.toLayoutAuthority input.preparedIds endpoints)) :
    endpoint ∈ endpoints ∧ ValidEndpoint input.preparedIds endpoint := by
  have := transCmp_endpoints subsystems.toLayoutAuthority
  obtain ⟨hmem, hadmitted⟩ := retained_admitted (orderedPolicy_namespace _ _ _) h
  exact ⟨hmem, admitted_iff.1 hadmitted⟩

/-- Its first is beaten by no valid endpoint it was offered. -/
theorem retain_best {endpoints : List (IntrinsicCapacityEndpoint heap)}
    {endpoint : IntrinsicCapacityEndpoint heap} (hmem : endpoint ∈ endpoints)
    (hvalid : ValidEndpoint input.preparedIds endpoint) :
    ∃ best, (retainIntrinsicAnytimeArchiveNamespace
      (partialNamespacePolicy subsystems.toLayoutAuthority input.preparedIds
        endpoints)).head? = some best ∧
      (compareIntrinsicCapacityEndpoints subsystems.toLayoutAuthority best endpoint).isLE := by
  have := transCmp_endpoints subsystems.toLayoutAuthority
  obtain ⟨identityKey, hadmitted⟩ := admitted_iff.2 hvalid
  exact retained_best (orderedPolicy_namespace _ _ _) hmem hadmitted

/-- Where the first candidate comes from: it is a valid base endpoint, or the quality endpoint,
and then it places strictly more than every valid base endpoint. -/
def FromBaseOrQuality (selected : IntrinsicCapacityEndpoint heap) : Prop :=
  selected ∈ baseEndpoints input terminalization lanes ∨
    lanes.qualityEndpoint = some selected ∧
      ∀ endpoint ∈ baseEndpoints input terminalization lanes,
        ValidEndpoint input.preparedIds endpoint →
          endpoint.metrics.placedCount < selected.metrics.placedCount

theorem candidates_best {endpoint : IntrinsicCapacityEndpoint heap}
    (hmem : endpoint ∈ baseEndpoints input terminalization lanes)
    (hvalid : ValidEndpoint input.preparedIds endpoint) :
    ∃ best, (capacityCandidates subsystems input terminalization lanes).head? = some best ∧
      (compareIntrinsicCapacityEndpoints subsystems.toLayoutAuthority best endpoint).isLE := by
  have htrans := transCmp_endpoints subsystems.toLayoutAuthority
  obtain ⟨best, hbest, hle⟩ := retain_best subsystems input hmem hvalid
  unfold capacityCandidates
  dsimp only
  split
  · have hin := List.mem_of_mem_head? hbest
    obtain ⟨best', hbest', hle'⟩ := retain_best subsystems input
      (List.mem_append_left lanes.qualityEndpoint.toList hin) (retain_valid _ _ hin).2
    exact ⟨best', hbest', Std.TransCmp.isLE_trans hle' hle⟩
  · exact ⟨best, hbest, hle⟩

theorem candidates_origin {selected : IntrinsicCapacityEndpoint heap}
    (h : (capacityCandidates subsystems input terminalization lanes).head? = some selected) :
    FromBaseOrQuality input terminalization lanes selected := by
  unfold capacityCandidates at h
  dsimp only at h
  split at h
  · next himproves =>
    obtain ⟨hmem, -⟩ := retain_valid subsystems input (List.mem_of_mem_head? h)
    rcases List.mem_append.1 hmem with hmem | hmem
    · exact .inl (retain_valid subsystems input hmem).1
    · have hquality : lanes.qualityEndpoint = some selected := by simpa using hmem
      refine .inr ⟨hquality, ?_⟩
      intro endpoint hendpoint hvalid
      obtain ⟨best, hbest, hle⟩ := retain_best subsystems input hendpoint hvalid
      rw [hquality, hbest] at himproves
      exact (placedCount_le_of_isLE hle).trans_lt (of_decide_eq_true himproves)
  · exact .inl (retain_valid subsystems input (List.mem_of_mem_head? h)).1

/-- With no candidate at all, the empty layout is settled. -/
theorem settleCapacityMode_cases {areas : MaterialAreas}
    {result : IntrinsicCapacityModeResult heap}
    (h : settleCapacityMode subsystems input areas terminalization lanes = .ok result) :
    intrinsicCapacityEndpointPartitionsRequest result.endpoint.placedPreparedIds
        result.endpoint.unplacedPreparedIds input.preparedIds = true ∧
      ((capacityCandidates subsystems input terminalization lanes).head? =
          some result.endpoint ∨
        (capacityCandidates subsystems input terminalization lanes).head? = none ∧
          makeAllUnplacedFallbackEndpoint subsystems input areas lanes.cavityCache =
            some result.endpoint) := by
  unfold settleCapacityMode at h
  split at h
  · cases h
  · next selected hselected =>
    split at h
    · cases h
    · next hpartitions =>
      obtain rfl := Except.ok.inj h
      refine ⟨by simpa using hpartitions, ?_⟩
      cases hhead : (capacityCandidates subsystems input terminalization lanes).head? with
      | some best =>
          rw [hhead] at hselected
          exact .inl hselected
      | none =>
          rw [hhead] at hselected
          exact .inr ⟨rfl, hselected⟩

end

/-! ## §3  The selection -/

/-- What the settled endpoint is. -/
structure SelectsOptimum (subsystems : SearchSubsystems heap)
    (input : RunIntrinsicCapacityModeInput heap)
    (areas : MaterialAreas) (terminalization : IntrinsicCapacityPrefixTerminalization heap)
    (lanes : LaneOutcome heap) (selected : IntrinsicCapacityEndpoint heap) : Prop where
  partitions : intrinsicCapacityEndpointPartitionsRequest selected.placedPreparedIds
    selected.unplacedPreparedIds input.preparedIds = true
  unbeaten : ∀ endpoint ∈ baseEndpoints input terminalization lanes,
    ValidEndpoint input.preparedIds endpoint →
      compareIntrinsicCapacityEndpoints subsystems.toLayoutAuthority endpoint selected ≠ .lt
  origin : FromBaseOrQuality input terminalization lanes selected ∨
    (∀ endpoint ∈ baseEndpoints input terminalization lanes,
      ¬ValidEndpoint input.preparedIds endpoint) ∧
      makeAllUnplacedFallbackEndpoint subsystems input areas lanes.cavityCache = some selected

theorem settleCapacityMode_selects {subsystems : SearchSubsystems heap}
    [Std.TransCmp subsystems.localeCompareKeys]
    {input : RunIntrinsicCapacityModeInput heap} {areas : MaterialAreas}
    {terminalization : IntrinsicCapacityPrefixTerminalization heap} {lanes : LaneOutcome heap}
    {result : IntrinsicCapacityModeResult heap}
    (h : settleCapacityMode subsystems input areas terminalization lanes = .ok result) :
    SelectsOptimum subsystems input areas terminalization lanes result.endpoint := by
  have htrans := transCmp_endpoints subsystems.toLayoutAuthority
  obtain ⟨hpartitions, hcases⟩ := settleCapacityMode_cases subsystems input terminalization lanes h
  refine ⟨hpartitions, ?_, ?_⟩
  · intro endpoint hendpoint hvalid
    obtain ⟨best, hbest, hle⟩ := candidates_best subsystems input terminalization lanes hendpoint
      hvalid
    rcases hcases with hhead | ⟨hnone, -⟩
    · obtain rfl := Option.some.inj (hhead.symm.trans hbest)
      intro hlt
      have hswap := Std.OrientedCmp.not_lt_of_isLE hle
      exact hswap hlt
    · rw [hnone] at hbest
      cases hbest
  · rcases hcases with hhead | ⟨hnone, hfallback⟩
    · exact .inl (candidates_origin subsystems input terminalization lanes hhead)
    · refine .inr ⟨?_, hfallback⟩
      intro endpoint hendpoint hvalid
      obtain ⟨best, hbest, -⟩ := candidates_best subsystems input terminalization lanes hendpoint
        hvalid
      rw [hnone] at hbest
      cases hbest

/-- The lanes with other warm endpoints. -/
def LaneOutcome.withWarmEndpoints (lanes : LaneOutcome heap)
    (warmEndpoints : List (IntrinsicCapacityEndpoint heap)) : LaneOutcome heap :=
  { lanes with
    coordinated := lanes.coordinated.map fun coordinated => { coordinated with warmEndpoints } }

theorem baseEndpoints_withWarmEndpoints {input : RunIntrinsicCapacityModeInput heap}
    (hunheard : input.admitWarmPrefixEndpoints = false)
    (terminalization : IntrinsicCapacityPrefixTerminalization heap) (lanes : LaneOutcome heap)
    (warmEndpoints : List (IntrinsicCapacityEndpoint heap)) :
    baseEndpoints input terminalization (lanes.withWarmEndpoints warmEndpoints) =
      baseEndpoints input terminalization lanes := by
  unfold baseEndpoints LaneOutcome.withWarmEndpoints
  rw [hunheard]
  cases lanes.coordinated <;> rfl

theorem settleCapacityMode_withWarmEndpoints (subsystems : SearchSubsystems heap)
    {input : RunIntrinsicCapacityModeInput heap}
    (hunheard : input.admitWarmPrefixEndpoints = false) (areas : MaterialAreas)
    (terminalization : IntrinsicCapacityPrefixTerminalization heap) (lanes : LaneOutcome heap)
    (warmEndpoints : List (IntrinsicCapacityEndpoint heap)) :
    settleCapacityMode subsystems input areas terminalization
        (lanes.withWarmEndpoints warmEndpoints) =
      settleCapacityMode subsystems input areas terminalization lanes := by
  have hquality : (lanes.withWarmEndpoints warmEndpoints).qualityEndpoint =
      lanes.qualityEndpoint := by
    unfold LaneOutcome.qualityEndpoint LaneOutcome.withWarmEndpoints
    cases lanes.coordinated <;> rfl
  have hcandidates : capacityCandidates subsystems input terminalization
      (lanes.withWarmEndpoints warmEndpoints) =
        capacityCandidates subsystems input terminalization lanes := by
    unfold capacityCandidates
    rw [hquality, baseEndpoints_withWarmEndpoints hunheard]
  unfold settleCapacityMode
  rw [hcandidates]
  rfl

/-- A result of the mode is settled from the lanes of its run. -/
theorem runIntrinsicCapacityMode_settles {subsystems : SearchSubsystems heap}
    {identities : CheckpointIdentities heap}
    {doubledArea : IrregularPreparedPiece F → Option ℤ}
    {input : RunIntrinsicCapacityModeInput heap} {fuel : ℕ}
    {result : IntrinsicCapacityModeResult heap}
    (h : runIntrinsicCapacityMode subsystems identities doubledArea input fuel =
      some (.ok result)) :
    ∃ areas terminalization cache lanes,
      intrinsicCapacityMaterialAreas doubledArea input.preparedPieces ∅ = .ok areas ∧
      terminalizeIntrinsicCapacityPrefixEndpoints subsystems input.sheet
        (captureIntrinsicCapacityPrefixDescriptors input.preparedPieces input.prefixSources)
        areas ∅ = (terminalization, cache) ∧
      runCapacityLanes subsystems identities input areas terminalization cache fuel =
        some (.ok lanes) ∧
      settleCapacityMode subsystems input areas terminalization lanes = .ok result := by
  unfold runIntrinsicCapacityMode at h
  split at h
  · cases h
  · next areas hareas =>
    dsimp only at h
    split at h
    · cases h
    · cases h
    · next lanes hlanes =>
      split at h
      · cases h
      · exact ⟨areas, _, _, lanes, hareas, rfl, hlanes, Option.some.inj h⟩

/-- The mode settles an optimum of the lanes it ran, whatever they come to, and
does not hear warm lanes it does not admit. -/
theorem capacityMode_selects {subsystems : SearchSubsystems heap}
    (hlocale : subsystems.localeCompareKeys = localeCompareKeys)
    (identities : CheckpointIdentities heap)
    (doubledArea : IrregularPreparedPiece F → Option ℤ)
    (input : RunIntrinsicCapacityModeInput heap) :
    (∀ fuel result, runIntrinsicCapacityMode subsystems identities doubledArea input fuel =
        some (.ok result) →
      ∃ areas terminalization cache lanes,
        intrinsicCapacityMaterialAreas doubledArea input.preparedPieces ∅ = .ok areas ∧
        terminalizeIntrinsicCapacityPrefixEndpoints subsystems input.sheet
          (captureIntrinsicCapacityPrefixDescriptors input.preparedPieces input.prefixSources)
          areas ∅ = (terminalization, cache) ∧
        runCapacityLanes subsystems identities input areas terminalization cache fuel =
          some (.ok lanes) ∧
        settleCapacityMode subsystems input areas terminalization lanes = .ok result) ∧
    (∀ areas terminalization lanes result,
      settleCapacityMode subsystems input areas terminalization lanes = .ok result →
        SelectsOptimum subsystems input areas terminalization lanes result.endpoint) ∧
    (input.admitWarmPrefixEndpoints = false → ∀ areas terminalization lanes warmEndpoints,
      settleCapacityMode subsystems input areas terminalization
          (lanes.withWarmEndpoints warmEndpoints) =
        settleCapacityMode subsystems input areas terminalization lanes) := by
  have htrans : Std.TransCmp subsystems.localeCompareKeys := by
    rw [hlocale]
    infer_instance
  refine ⟨fun _ _ => runIntrinsicCapacityMode_settles,
    fun _ _ _ _ => settleCapacityMode_selects, ?_⟩
  intro hunheard areas terminalization lanes warmEndpoints
  exact settleCapacityMode_withWarmEndpoints subsystems hunheard areas terminalization lanes
    warmEndpoints

/-- The three squares, compared as the program compares. -/
def localeSubsystems : SearchSubsystems squareHeap :=
  { crowdedSubsystems 0 with localeCompareKeys := localeCompareKeys }

/-- One square that nothing can place, and a cold lane on its own. -/
def loneSquareMode : RunIntrinsicCapacityModeInput squareHeap where
  sheet := ⟨1, 1, ""⟩
  preparedPieces := [{ squarePiece "a" with transforms := [] }]
  prefixSources := []
  captureCohesionShadow := false
  scheduledColdStart := none
  admitWarmPrefixEndpoints := false
  coordinateProtectedLanes := false
  retentionMode := none

theorem capacityMode_selects_loneSquare :
    ∃ result, runIntrinsicCapacityMode localeSubsystems (plainIdentities _) (fun _ => some 2)
        loneSquareMode 0 = some (.ok result) ∧
      ∃ areas terminalization lanes,
        SelectsOptimum localeSubsystems loneSquareMode areas terminalization lanes
          result.endpoint ∧
        ∀ warmEndpoints, settleCapacityMode localeSubsystems loneSquareMode areas
            terminalization (lanes.withWarmEndpoints warmEndpoints) = .ok result := by
  obtain ⟨hruns, hselects, hwarm⟩ := capacityMode_selects
    (show localeSubsystems.localeCompareKeys = localeCompareKeys from rfl) (plainIdentities _)
    (fun _ => some 2) loneSquareMode
  have hsome : (runIntrinsicCapacityMode localeSubsystems (plainIdentities _)
      (fun _ => some 2) loneSquareMode 0).any Except.isOk = true := by decide +kernel
  obtain ⟨outcome, hrun, hok⟩ := (Option.any_eq_true _ _).1 hsome
  cases outcome with
  | error error => cases hok
  | ok result =>
    obtain ⟨areas, terminalization, cache, lanes, -, -, -, hsettled⟩ := hruns 0 result hrun
    refine ⟨result, hrun, areas, terminalization, lanes, hselects _ _ _ _ hsettled, ?_⟩
    intro warmEndpoints
    rw [hwarm rfl, hsettled]

end PolygonNesting
