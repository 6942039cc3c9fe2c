import PolygonNesting.Capacity.ModeSelection

set_option linter.unusedSectionVars false

/-!
# Terminalization

A finished search and the committed prefixes end alike: every state is
materialized, the better endpoint of each geometry hash is kept in a hash map, and
the map is listed and sorted.  The comparator is a total preorder and endpoints of
different hashes never tie, so what comes out is the least endpoint of each hash,
in order, whatever order the map is listed in.
-/

namespace PolygonNesting

open Comparator

variable {F : Type} [LinearOrder F] [Zero F] [One F] [Add F] [Sub F] [Neg F]
  [Mul F] [Div F] [JsMath F] {heap : ℕ → IrregularPlacedPiece F} {π : Type}

/-! ## §1  The endpoints of a list of states -/

/-- The endpoints that materialize, with the cavity cache threaded through. -/
def materializedEndpoints (authority : LayoutAuthority heap) :
    List (MaterializeIntrinsicCapacityEndpointInput heap π) → IntrinsicCapacityCavityCache F →
      List (IntrinsicCapacityEndpoint heap)
  | [], _ => []
  | input :: inputs, cache =>
      match materializeIntrinsicCapacityEndpoint authority input cache with
      | (none, cache) => materializedEndpoints authority inputs cache
      | (some endpoint, cache) => endpoint :: materializedEndpoints authority inputs cache

theorem insertEndpointByHash_eq (authority : LayoutAuthority heap) :
    insertEndpointByHash authority =
      insertBest (compareIntrinsicCapacityEndpoints authority)
        fun endpoint => endpoint.canonicalGeometryHash := by
  funext best endpoint
  unfold insertEndpointByHash insertBest
  cases best.lookup endpoint.canonicalGeometryHash <;> rfl

theorem collectEndpoints_byHash (subsystems : SearchSubsystems heap)
    (input : ColdSearchInput heap) (role : IntrinsicAnytimeProducerRole)
    (states : List (CapacityState heap)) (cache : IntrinsicCapacityCavityCache F) :
    (collectEndpoints subsystems input role states cache).byHash =
      (materializedEndpoints subsystems.toLayoutAuthority
        (states.map (endpointInput input role)) cache).foldl
          (insertEndpointByHash subsystems.toLayoutAuthority) ∅ := by
  have hrun : ∀ (states : List (CapacityState heap)) (collection : EndpointCollection heap),
      (states.foldl (collectEndpoint subsystems input role) collection).byHash =
        (materializedEndpoints subsystems.toLayoutAuthority
          (states.map (endpointInput input role)) collection.cavityCache).foldl
            (insertEndpointByHash subsystems.toLayoutAuthority) collection.byHash := by
    intro states
    induction states with
    | nil => intro collection; rfl
    | cons state states ih =>
        intro collection
        rw [List.foldl_cons, ih, List.map_cons, materializedEndpoints, collectEndpoint]
        rcases materializeIntrinsicCapacityEndpoint subsystems.toLayoutAuthority
          (endpointInput input role state) collection.cavityCache with ⟨result, cache⟩
        cases result <;> rfl
  exact hrun states ⟨∅, 0, cache⟩

/-- What a descriptor is materialized from. -/
def descriptorInput (sheet : SheetSpec F) (areas : MaterialAreas)
    (descriptor : IntrinsicCapacityPrefixDescriptor heap) :
    MaterializeIntrinsicCapacityEndpointInput heap (IrregularPreparedPiece F) where
  sheet := sheet
  state := descriptor.state
  unplacedPreparedIds := descriptor.remainingPreparedIds
  origin := .prefixIncumbent
  sourceRole := some descriptor.role.asStr
  prefixDepth := some descriptor.depth
  materialAreasByPieceId := areas

theorem terminalizeDescriptors_byHash (subsystems : SearchSubsystems heap)
    (sheet : SheetSpec F) (areas : MaterialAreas) :
    ∀ (descriptors fitting : List (IntrinsicCapacityPrefixDescriptor heap))
      (byHash : AList fun _ : String => IntrinsicCapacityEndpoint heap)
      (cache : IntrinsicCapacityCavityCache F),
      (terminalizeDescriptors subsystems sheet areas descriptors byHash fitting cache).1 =
        (materializedEndpoints subsystems.toLayoutAuthority
          (descriptors.map (descriptorInput sheet areas)) cache).foldl
            (insertEndpointByHash subsystems.toLayoutAuthority) byHash := by
  intro descriptors
  induction descriptors with
  | nil => intro fitting byHash cache; rfl
  | cons descriptor descriptors ih =>
      intro fitting byHash cache
      rw [terminalizeDescriptors, List.map_cons, materializedEndpoints, descriptorInput]
      rcases materializeIntrinsicCapacityEndpoint subsystems.toLayoutAuthority
        _ cache with ⟨result, cache⟩
      cases result with
      | none => exact ih fitting byHash cache
      | some endpoint => exact ih _ _ cache

/-! ## §2  The endpoint list -/

/-- What the terminalization of some endpoints comes to: the least of each hash in
order, and that in whatever order the map is listed before the sort. -/
structure Terminalizes (authority : LayoutAuthority heap)
    (materialized endpoints : List (IntrinsicCapacityEndpoint heap))
    (byHash : AList fun _ : String => IntrinsicCapacityEndpoint heap) : Prop where
  ranked : RankedBest (compareIntrinsicCapacityEndpoints authority)
    (fun endpoint => endpoint.canonicalGeometryHash) materialized endpoints
  anyListing : ∀ listing : List (IntrinsicCapacityEndpoint heap),
    listing.Perm (byHash.entries.map fun entry => entry.2) →
      listing.mergeSort (sortLe (compareIntrinsicCapacityEndpoints authority)) = endpoints

theorem terminalizes_rankedEndpoints {authority : LayoutAuthority heap}
    (hlocale : authority.localeCompareKeys = localeCompareKeys)
    (materialized : List (IntrinsicCapacityEndpoint heap)) :
    Terminalizes authority materialized
      (rankedEndpoints authority (materialized.foldl (insertEndpointByHash authority) ∅))
      (materialized.foldl (insertEndpointByHash authority) ∅) := by
  have hkeys : Std.TransCmp authority.localeCompareKeys := by
    rw [hlocale]
    infer_instance
  have htrans := transCmp_endpoints authority
  have hbest : Best (compareIntrinsicCapacityEndpoints authority)
      (fun endpoint => endpoint.canonicalGeometryHash) materialized
      (materialized.foldl (insertEndpointByHash authority) ∅) := by
    rw [insertEndpointByHash_eq]
    exact best_foldl materialized
  exact ⟨hbest.rankedBest (List.Perm.refl _), fun listing hlisting =>
    hbest.sort_eq (fun _ _ => hash_eq_of_compare hlocale) hlisting⟩

/-- The comparators of the capacity search are antisymmetric in sign and transitive. -/
structure ConsistentComparators (authority : LayoutAuthority heap) (π : Type) : Prop where
  endpoints : Std.TransCmp (compareIntrinsicCapacityEndpoints authority)
  beamEntries : Std.TransCmp (compareCapacityBeamEntries : EntryOrder heap π)
  areaFirst : Std.TransCmp (compareCapacityBeamEntriesAreaFirst : EntryOrder heap π)
  widthFirst : Std.TransCmp (compareCapacityBeamEntriesWidthFirst : EntryOrder heap π)
  heightFirst : Std.TransCmp (compareCapacityBeamEntriesHeightFirst : EntryOrder heap π)
  topologyMetric : ∀ measureTopology metric,
    (metric = .hullWaste → MeasuresHullGaps measureTopology) →
      Std.TransCmp (compareTopologyMetric measureTopology metric : EntryOrder heap π)

theorem consistentComparators {authority : LayoutAuthority heap}
    (hlocale : authority.localeCompareKeys = localeCompareKeys) :
    ConsistentComparators authority π where
  endpoints := by
    have hkeys : Std.TransCmp authority.localeCompareKeys := by
      rw [hlocale]
      infer_instance
    exact transCmp_endpoints authority
  beamEntries := transCmp_beamEntries
  areaFirst := transCmp_areaFirst
  widthFirst := transCmp_widthFirst
  heightFirst := transCmp_heightFirst
  topologyMetric _ _ := transCmp_topologyMetric

/-- **The order of endpoints is independent of the hash maps.**  The comparators are
total preorders, and for every list of states, of the beam or of the prefixes, the
endpoint list holds the least endpoint of each geometry hash in order, whatever
order the map is listed in. -/
theorem capacityOrder_independent {subsystems : SearchSubsystems heap}
    (hlocale : subsystems.localeCompareKeys = localeCompareKeys) :
    ConsistentComparators subsystems.toLayoutAuthority π ∧
    (∀ (input : ColdSearchInput heap) (role : IntrinsicAnytimeProducerRole)
      (states : List (CapacityState heap)) (cache : IntrinsicCapacityCavityCache F),
      Terminalizes subsystems.toLayoutAuthority
        (materializedEndpoints subsystems.toLayoutAuthority
          (states.map (endpointInput input role)) cache)
        (rankedEndpoints subsystems.toLayoutAuthority
          (collectEndpoints subsystems input role states cache).byHash)
        (collectEndpoints subsystems input role states cache).byHash) ∧
    (∀ (sheet : SheetSpec F) (descriptors : List (IntrinsicCapacityPrefixDescriptor heap))
      (areas : MaterialAreas) (cache : IntrinsicCapacityCavityCache F),
      Terminalizes subsystems.toLayoutAuthority
        (materializedEndpoints subsystems.toLayoutAuthority
          (descriptors.map (descriptorInput sheet areas)) cache)
        (terminalizeIntrinsicCapacityPrefixEndpoints subsystems sheet descriptors areas
          cache).1.endpoints
        (terminalizeDescriptors subsystems sheet areas descriptors ∅ [] cache).1) := by
  refine ⟨consistentComparators hlocale, fun input role states cache => ?_,
    fun sheet descriptors areas cache => ?_⟩
  · rw [collectEndpoints_byHash]
    exact terminalizes_rankedEndpoints hlocale _
  · have hbyHash := terminalizeDescriptors_byHash subsystems sheet areas descriptors [] ∅ cache
    show Terminalizes _ _ (rankedEndpoints subsystems.toLayoutAuthority
      (terminalizeDescriptors subsystems sheet areas descriptors ∅ [] cache).1) _
    rw [hbyHash]
    exact terminalizes_rankedEndpoints hlocale _

/-- A beam of the empty layout, one square, and the other square. -/
def squareStates : List (CapacityState squareHeap) :=
  let start : CapacityState squareHeap := IrregularBeamState.empty [squarePiece "a"]
  [start, start.withPlacement [] ⟨0⟩ "a", start.withPlacement [] ⟨1⟩ "b"]

theorem capacityOrder_independent_squares :
    ConsistentComparators localeSubsystems.toLayoutAuthority PieceId ∧
      Terminalizes localeSubsystems.toLayoutAuthority
        (materializedEndpoints localeSubsystems.toLayoutAuthority
          (squareStates.map (endpointInput
            (loneSquareMode.searchInput (fun _ => some 2) none none none) .capacityCold)) ∅)
        (rankedEndpoints localeSubsystems.toLayoutAuthority
          (collectEndpoints localeSubsystems
            (loneSquareMode.searchInput (fun _ => some 2) none none none) .capacityCold
            squareStates ∅).byHash)
        (collectEndpoints localeSubsystems
          (loneSquareMode.searchInput (fun _ => some 2) none none none) .capacityCold
          squareStates ∅).byHash := by
  have hlocale : localeSubsystems.localeCompareKeys = localeCompareKeys := rfl
  obtain ⟨hcomparators, hstates, -⟩ := capacityOrder_independent (π := PieceId) hlocale
  exact ⟨hcomparators, hstates _ _ _ _⟩

end PolygonNesting
