import Mathlib.Data.Rat.Floor
import PolygonNesting.Capacity.Retention
import PolygonNesting.Checkpoints.CanonicalJson
import PolygonNesting.Lib.Comparator

set_option linter.unusedSectionVars false

/-!
# The capacity comparators are total preorders

Endpoints are compared by the eleven keys of the objective, beam entries by four
chains that end in the anchored key, and by topology metrics that end in the
first of these chains.  Each is a chain of comparators of projections.  The
metric that is none is the hull waste, a ratio compared by cross multiplication:
it is the order of the ratios as long as an empty hull has no gap.
-/

namespace PolygonNesting

open Comparator

variable {F : Type} [LinearOrder F] [Zero F] [One F] [Add F] [Sub F] [Neg F]
  [Mul F] [Div F] [JsMath F] {heap : ℕ → IrregularPlacedPiece F} {π : Type}

/-! ## §1  Endpoints -/

/-- The eleven keys of the objective are a consistent order. -/
theorem transCmp_endpoints (authority : LayoutAuthority heap)
    [hlocale : Std.TransCmp authority.localeCompareKeys] :
    Std.TransCmp (compareIntrinsicCapacityEndpoints authority) := by
  unfold compareIntrinsicCapacityEndpoints
  refine transCmp_then (transCmp_comap (fun a b : ℕ => compare b a)
    fun endpoint : IntrinsicCapacityEndpoint heap => endpoint.metrics.placedCount) ?_
  refine transCmp_then (transCmp_comap (fun a b : ℤ => compare b a)
    fun endpoint : IntrinsicCapacityEndpoint heap =>
      endpoint.metrics.placedDoubledMaterialAreaGrid2) ?_
  refine transCmp_then (transCmp_comap compare
    fun endpoint : IntrinsicCapacityEndpoint heap => endpoint.metrics.enclosedCavityCount) ?_
  refine transCmp_then (transCmp_comap compare
    fun endpoint : IntrinsicCapacityEndpoint heap =>
      endpoint.metrics.totalEnclosedCavityDoubledAreaGrid2) ?_
  refine transCmp_then (transCmp_comap compare
    fun endpoint : IntrinsicCapacityEndpoint heap => endpoint.metrics.envelopeMaximumSideGrid) ?_
  refine transCmp_then (transCmp_comap compare
    fun endpoint : IntrinsicCapacityEndpoint heap => endpoint.metrics.envelopeAreaGrid2) ?_
  refine transCmp_then (transCmp_comap compare
    fun endpoint : IntrinsicCapacityEndpoint heap => endpoint.metrics.envelopeSpanGrid) ?_
  refine transCmp_then (transCmp_comap authority.localeCompareKeys
    fun endpoint : IntrinsicCapacityEndpoint heap => endpoint.canonicalGeometryHash) ?_
  refine transCmp_then (transCmp_comap compare
    fun endpoint : IntrinsicCapacityEndpoint heap =>
      intrinsicCapacityOriginRank endpoint.origin) ?_
  exact transCmp_then (transCmp_comap compare
      fun endpoint : IntrinsicCapacityEndpoint heap => prefixDepthRank endpoint.prefixDepth)
    (transCmp_comap authority.localeCompareKeys
      fun endpoint : IntrinsicCapacityEndpoint heap => endpoint.sourceRole.getD "")

/-- Endpoints of different hashes never tie. -/
theorem hash_eq_of_compare {authority : LayoutAuthority heap}
    (hlocale : authority.localeCompareKeys = localeCompareKeys)
    {first second : IntrinsicCapacityEndpoint heap}
    (h : compareIntrinsicCapacityEndpoints authority first second = .eq) :
    first.canonicalGeometryHash = second.canonicalGeometryHash := by
  simp only [compareIntrinsicCapacityEndpoints, Ordering.then_eq_eq, hlocale] at h
  exact eq_of_localeCompareKeys h.2.2.2.2.2.2.2.1

/-! ## §2  Beam entries -/

abbrev EntryOrder (heap : ℕ → IrregularPlacedPiece F) (π : Type) : Type :=
  CapacityBeamEntry heap π → CapacityBeamEntry heap π → Ordering

instance transCmp_accounting :
    Std.TransCmp (compareCapacityBeamEntryAccounting : EntryOrder heap π) := by
  unfold compareCapacityBeamEntryAccounting
  refine transCmp_then (transCmp_comap (fun a b : ℕ => compare b a)
    fun entry : CapacityBeamEntry heap π => entry.state.placementOrder.length) ?_
  refine transCmp_then (transCmp_comap (fun a b : ℤ => compare b a)
    fun entry : CapacityBeamEntry heap π => entry.placedDoubledMaterialAreaGrid2) ?_
  exact transCmp_then (transCmp_comap compare
      fun entry : CapacityBeamEntry heap π => entry.cavities.count)
    (transCmp_comap compare
      fun entry : CapacityBeamEntry heap π => entry.cavities.totalDoubledAreaGrid2)

theorem transCmp_maximumSide : Std.TransCmp fun first second : CapacityBeamEntry heap π =>
    compare first.gridSpan.maximumSide second.gridSpan.maximumSide :=
  transCmp_comap compare fun entry : CapacityBeamEntry heap π => entry.gridSpan.maximumSide

theorem transCmp_envelopeAreas : Std.TransCmp fun first second : CapacityBeamEntry heap π =>
    compareIntrinsicCapacityEnvelopeAreas first.gridSpan second.gridSpan :=
  transCmp_comap compare fun entry : CapacityBeamEntry heap π =>
    entry.gridSpan.widthGrid * entry.gridSpan.heightGrid

/-- The span, then the anchored key. -/
theorem transCmp_spanAndKey : Std.TransCmp fun first second : CapacityBeamEntry heap π =>
    (compare (first.gridSpan.widthGrid + first.gridSpan.heightGrid)
      (second.gridSpan.widthGrid + second.gridSpan.heightGrid)).then
        (cmpJsCodeUnits first.anchoredOccupiedKey second.anchoredOccupiedKey) :=
  transCmp_then (transCmp_comap compare fun entry : CapacityBeamEntry heap π =>
      entry.gridSpan.widthGrid + entry.gridSpan.heightGrid)
    (transCmp_comap cmpJsCodeUnits fun entry : CapacityBeamEntry heap π =>
      entry.anchoredOccupiedKey)

instance transCmp_beamEntries :
    Std.TransCmp (compareCapacityBeamEntries : EntryOrder heap π) :=
  transCmp_then transCmp_accounting <| transCmp_then transCmp_maximumSide <|
    transCmp_then transCmp_envelopeAreas transCmp_spanAndKey

instance transCmp_areaFirst :
    Std.TransCmp (compareCapacityBeamEntriesAreaFirst : EntryOrder heap π) :=
  transCmp_then transCmp_accounting <| transCmp_then transCmp_envelopeAreas <|
    transCmp_then transCmp_maximumSide transCmp_spanAndKey

instance transCmp_widthFirst :
    Std.TransCmp (compareCapacityBeamEntriesWidthFirst : EntryOrder heap π) :=
  transCmp_then transCmp_accounting <|
    transCmp_then (transCmp_comap compare fun entry : CapacityBeamEntry heap π =>
      entry.gridSpan.widthGrid) <|
    transCmp_then (transCmp_comap compare fun entry : CapacityBeamEntry heap π =>
      entry.gridSpan.heightGrid) transCmp_beamEntries

instance transCmp_heightFirst :
    Std.TransCmp (compareCapacityBeamEntriesHeightFirst : EntryOrder heap π) :=
  transCmp_then transCmp_accounting <|
    transCmp_then (transCmp_comap compare fun entry : CapacityBeamEntry heap π =>
      entry.gridSpan.heightGrid) <|
    transCmp_then (transCmp_comap compare fun entry : CapacityBeamEntry heap π =>
      entry.gridSpan.widthGrid) transCmp_beamEntries

/-! ## §3  Topology metrics -/

/-- A measured gap lies in its hull, so an empty hull has none. -/
def MeasuresHullGaps
    (measureTopology : List (IrregularPlacedPiece F) → Option CanonicalLayoutTopologyExact) :
    Prop :=
  ∀ placed topology, measureTopology placed = some topology →
    0 ≤ topology.exactHullDoubledAreaGrid2 ∧ 0 ≤ topology.exactHullGapDoubledAreaGrid2 ∧
      (topology.exactHullDoubledAreaGrid2 = 0 → topology.exactHullGapDoubledAreaGrid2 = 0)

/-- What a metric measures, the smaller the better. -/
def TopologyMetric.value (metric : TopologyMetric) (topology : CanonicalLayoutTopologyExact) :
    ℚ :=
  match metric with
  | .isolated => topology.isolatedPieceCount
  | .largestComponent => -topology.largestPositiveContactComponentSize
  | .componentCount => topology.positiveContactComponentCount
  | .hullWaste =>
      topology.exactHullGapDoubledAreaGrid2 / topology.exactHullDoubledAreaGrid2

/-- The value of an entry, the unmeasured ones last. -/
def metricKey
    (measureTopology : List (IrregularPlacedPiece F) → Option CanonicalLayoutTopologyExact)
    (metric : TopologyMetric) (entry : CapacityBeamEntry heap π) : WithTop ℚ :=
  match entryTopology measureTopology entry with
  | none => ⊤
  | some topology => metric.value topology

/-- Cross multiplication is the order of the ratios. -/
theorem compareExactHullWaste_eq {first second : CanonicalLayoutTopologyExact}
    (hfirst : 0 ≤ first.exactHullDoubledAreaGrid2) (hsecond : 0 ≤ second.exactHullDoubledAreaGrid2)
    (hgap : 0 ≤ first.exactHullGapDoubledAreaGrid2)
    (hgap' : 0 ≤ second.exactHullGapDoubledAreaGrid2)
    (hempty : first.exactHullDoubledAreaGrid2 = 0 → first.exactHullGapDoubledAreaGrid2 = 0)
    (hempty' : second.exactHullDoubledAreaGrid2 = 0 → second.exactHullGapDoubledAreaGrid2 = 0) :
    compareExactHullWaste first second =
      compare (TopologyMetric.hullWaste.value first) (TopologyMetric.hullWaste.value second) := by
  unfold compareExactHullWaste TopologyMetric.value
  generalize first.exactHullDoubledAreaGrid2 = h at *
  generalize second.exactHullDoubledAreaGrid2 = h' at *
  generalize first.exactHullGapDoubledAreaGrid2 = g at *
  generalize second.exactHullGapDoubledAreaGrid2 = g' at *
  -- the ratio has the sign of the gap, also where both vanish
  have hsign : ∀ {a b : ℤ}, 0 ≤ b → (b = 0 → a = 0) → (0 < a ↔ (0 : ℚ) < a / b) := by
    intro a b hb hzero
    rcases hb.eq_or_lt with rfl | hpos
    · simp [hzero rfl]
    · rw [div_pos_iff_of_pos_right (by exact_mod_cast hpos)]
      exact_mod_cast Iff.rfl
  split
  · next hor =>
    rcases hor with hzero | hzero
    · obtain rfl := hempty hzero
      refine compare_congr ?_ ?_
      · simpa using hsign hsecond hempty'
      · have hle : (0 : ℚ) ≤ g' / h' := by positivity
        simpa using iff_of_false (not_lt.mpr hgap') (not_lt.mpr hle)
    · obtain rfl := hempty' hzero
      refine compare_congr ?_ ?_
      · have hle : (0 : ℚ) ≤ g / h := by positivity
        simpa using iff_of_false (not_lt.mpr hgap) (not_lt.mpr hle)
      · simpa using hsign hfirst hempty
  · next hor =>
    have hpos : (0 : ℚ) < h := by
      exact_mod_cast hfirst.lt_of_ne fun hzero => hor (.inl hzero.symm)
    have hpos' : (0 : ℚ) < h' := by
      exact_mod_cast hsecond.lt_of_ne fun hzero => hor (.inr hzero.symm)
    refine compare_congr ?_ ?_
    · rw [div_lt_div_iff₀ hpos hpos']
      exact_mod_cast Iff.rfl
    · rw [div_lt_div_iff₀ hpos' hpos]
      exact_mod_cast Iff.rfl

/-- Negated sizes compare the other way. -/
theorem compare_neg_natCast (a b : ℕ) : compare b a = compare (-(a : ℚ)) (-(b : ℚ)) :=
  compare_congr (by simp) (by simp)

theorem compare_natCast (a b : ℕ) : compare a b = compare (a : ℚ) (b : ℚ) :=
  compare_congr (by simp) (by simp)

theorem measured_of_entryTopology
    {measureTopology : List (IrregularPlacedPiece F) → Option CanonicalLayoutTopologyExact}
    (hgaps : MeasuresHullGaps measureTopology) {entry : CapacityBeamEntry heap π}
    {topology : CanonicalLayoutTopologyExact}
    (h : entryTopology measureTopology entry = some topology) :
    0 ≤ topology.exactHullDoubledAreaGrid2 ∧ 0 ≤ topology.exactHullGapDoubledAreaGrid2 ∧
      (topology.exactHullDoubledAreaGrid2 = 0 →
        topology.exactHullGapDoubledAreaGrid2 = 0) := by
  unfold entryTopology at h
  split at h
  · exact absurd h (by simp)
  · exact hgaps _ _ h

/-- A metric comparison is accounting, the value, then the objective. -/
theorem compareTopologyMetric_eq
    {measureTopology : List (IrregularPlacedPiece F) → Option CanonicalLayoutTopologyExact}
    {metric : TopologyMetric} (hgaps : metric = .hullWaste → MeasuresHullGaps measureTopology)
    (first second : CapacityBeamEntry heap π) :
    compareTopologyMetric measureTopology metric first second =
      (compareCapacityBeamEntryAccounting first second).then
        ((compare (metricKey measureTopology metric first)
          (metricKey measureTopology metric second)).then
            (compareCapacityBeamEntries first second)) := by
  unfold compareTopologyMetric metricKey
  congr 1
  cases hfirst : entryTopology measureTopology first with
  | none =>
      cases entryTopology measureTopology second with
      | none =>
          rw [compare_eq_iff_eq.mpr rfl]
          rfl
      | some topology =>
          rw [compare_gt_iff_gt.mpr (WithTop.coe_lt_top _)]
          rfl
  | some topology =>
      cases hsecond : entryTopology measureTopology second with
      | none =>
          rw [compare_lt_iff_lt.mpr (WithTop.coe_lt_top _)]
          rfl
      | some topology' =>
          have hcoe : compare ((metric.value topology : ℚ) : WithTop ℚ)
              ((metric.value topology' : ℚ) : WithTop ℚ) =
              compare (metric.value topology) (metric.value topology') :=
            compare_congr WithTop.coe_lt_coe WithTop.coe_lt_coe
          simp only [hcoe]
          congr 1
          cases metric with
          | isolated => exact compare_natCast _ _
          | largestComponent => exact compare_neg_natCast _ _
          | componentCount => exact compare_natCast _ _
          | hullWaste =>
              obtain ⟨hhull, hgap, hempty⟩ := measured_of_entryTopology (hgaps rfl) hfirst
              obtain ⟨hhull', hgap', hempty'⟩ := measured_of_entryTopology (hgaps rfl) hsecond
              exact compareExactHullWaste_eq hhull hhull' hgap hgap' hempty hempty'

theorem transCmp_topologyMetric
    {measureTopology : List (IrregularPlacedPiece F) → Option CanonicalLayoutTopologyExact}
    {metric : TopologyMetric} (hgaps : metric = .hullWaste → MeasuresHullGaps measureTopology) :
    Std.TransCmp (compareTopologyMetric measureTopology metric : EntryOrder heap π) := by
  have heq : (compareTopologyMetric measureTopology metric : EntryOrder heap π) =
      fun first second => (compareCapacityBeamEntryAccounting first second).then
        ((compare (metricKey measureTopology metric first)
          (metricKey measureTopology metric second)).then
            (compareCapacityBeamEntries first second)) := by
    funext first second
    exact compareTopologyMetric_eq hgaps first second
  rw [heq]
  exact transCmp_then transCmp_accounting <|
    transCmp_then (transCmp_comap compare fun entry : CapacityBeamEntry heap π =>
      metricKey measureTopology metric entry) transCmp_beamEntries

end PolygonNesting
