import PolygonNesting.Capacity.Endpoint

set_option linter.unusedSectionVars false

/-!
# Beam entries and retention

The entries of the capacity beam, their order, and the six ways to keep at most
a beam width of them.  What every mode shares is the last theorem: a retained
entry is one of the entries offered.

The observer transition of an entry is read only by the topology trace of the
depth that created it, and is left out; the topology memo holds values of the
measurement itself.
-/

namespace PolygonNesting

variable {F : Type} [LinearOrder F] [Zero F] [One F] [Add F] [Sub F] [Neg F]
  [Mul F] [Div F] [JsMath F] {heap : ℕ → IrregularPlacedPiece F} {π : Type}

/-! ## §1  Entries -/

structure CapacityBeamEntry (heap : ℕ → IrregularPlacedPiece F) (π : Type) where
  state : IrregularBeamState heap π
  placedDoubledMaterialAreaGrid2 : ℤ
  anchoredOccupiedKey : String
  gridSpan : IntrinsicCapacityGridSpan
  cavities : IntrinsicCapacityCavityMetrics F

/-- `JSON.stringify` of an array of texts, given that of one text. -/
def jsonArray (jsonString : String → String) (values : List String) : String :=
  "[" ++ String.intercalate "," (values.map jsonString) ++ "]"

/-- `derive_intrinsic_capacity_successor_identity`: the anchored key and the
sorted placed ids.  The source derives it once per entry. -/
def CapacityBeamEntry.successorIdentity (jsonString : String → String)
    (entry : CapacityBeamEntry heap π) : String :=
  entry.anchoredOccupiedKey ++ "|placed=" ++
    jsonArray jsonString (entry.state.placementOrder.mergeSort keyLe)

inductive IntrinsicCapacityRetentionMode where
  | objective
  | areaFirstShadow
  | axisBucketsShadow
  | cohesionFrontier
  | cohesionFrontierShadow
  | qualityFrontier
  deriving DecidableEq

/-! ## §2  Comparators -/

def IntrinsicCapacityGridSpan.maximumSide (span : IntrinsicCapacityGridSpan) : ℤ :=
  max span.widthGrid span.heightGrid

/-- `compare_intrinsic_capacity_envelope_areas`. -/
def compareIntrinsicCapacityEnvelopeAreas (first second : IntrinsicCapacityGridSpan) :
    Ordering :=
  compare (first.widthGrid * first.heightGrid) (second.widthGrid * second.heightGrid)

/-- More pieces, more material, fewer and smaller cavities. -/
def compareCapacityBeamEntryAccounting (first second : CapacityBeamEntry heap π) :
    Ordering :=
  (compare second.state.placementOrder.length first.state.placementOrder.length).then <|
  (compare second.placedDoubledMaterialAreaGrid2
    first.placedDoubledMaterialAreaGrid2).then <|
  (compare first.cavities.count second.cavities.count).then <|
  compare first.cavities.totalDoubledAreaGrid2 second.cavities.totalDoubledAreaGrid2

def compareCapacityBeamEntries (first second : CapacityBeamEntry heap π) : Ordering :=
  (compareCapacityBeamEntryAccounting first second).then <|
  (compare first.gridSpan.maximumSide second.gridSpan.maximumSide).then <|
  (compareIntrinsicCapacityEnvelopeAreas first.gridSpan second.gridSpan).then <|
  (compare (first.gridSpan.widthGrid + first.gridSpan.heightGrid)
    (second.gridSpan.widthGrid + second.gridSpan.heightGrid)).then <|
  cmpJsCodeUnits first.anchoredOccupiedKey second.anchoredOccupiedKey

/-- The envelope area before the longest side. -/
def compareCapacityBeamEntriesAreaFirst (first second : CapacityBeamEntry heap π) :
    Ordering :=
  (compareCapacityBeamEntryAccounting first second).then <|
  (compareIntrinsicCapacityEnvelopeAreas first.gridSpan second.gridSpan).then <|
  (compare first.gridSpan.maximumSide second.gridSpan.maximumSide).then <|
  (compare (first.gridSpan.widthGrid + first.gridSpan.heightGrid)
    (second.gridSpan.widthGrid + second.gridSpan.heightGrid)).then <|
  cmpJsCodeUnits first.anchoredOccupiedKey second.anchoredOccupiedKey

def compareCapacityBeamEntriesWidthFirst (first second : CapacityBeamEntry heap π) :
    Ordering :=
  (compareCapacityBeamEntryAccounting first second).then <|
  (compare first.gridSpan.widthGrid second.gridSpan.widthGrid).then <|
  (compare first.gridSpan.heightGrid second.gridSpan.heightGrid).then <|
  compareCapacityBeamEntries first second

def compareCapacityBeamEntriesHeightFirst (first second : CapacityBeamEntry heap π) :
    Ordering :=
  (compareCapacityBeamEntryAccounting first second).then <|
  (compare first.gridSpan.heightGrid second.gridSpan.heightGrid).then <|
  (compare first.gridSpan.widthGrid second.gridSpan.widthGrid).then <|
  compareCapacityBeamEntries first second

inductive TopologyMetric where
  | isolated
  | largestComponent
  | componentCount
  | hullWaste

def compareExactHullWaste (first second : CanonicalLayoutTopologyExact) : Ordering :=
  if first.exactHullDoubledAreaGrid2 = 0 ∨ second.exactHullDoubledAreaGrid2 = 0 then
    compare first.exactHullGapDoubledAreaGrid2 second.exactHullGapDoubledAreaGrid2
  else
    compare (first.exactHullGapDoubledAreaGrid2 * second.exactHullDoubledAreaGrid2)
      (second.exactHullGapDoubledAreaGrid2 * first.exactHullDoubledAreaGrid2)

/-- The topology of an entry; none of an empty layout. -/
def entryTopology
    (measureTopology : List (IrregularPlacedPiece F) → Option CanonicalLayoutTopologyExact)
    (entry : CapacityBeamEntry heap π) : Option CanonicalLayoutTopologyExact :=
  if entry.state.placedCollisionGeometries.isEmpty then none
  else measureTopology (toOwnedPlaced entry.state.placedCollisionGeometries)

def compareTopologyMetric
    (measureTopology : List (IrregularPlacedPiece F) → Option CanonicalLayoutTopologyExact)
    (metric : TopologyMetric) (first second : CapacityBeamEntry heap π) : Ordering :=
  (compareCapacityBeamEntryAccounting first second).then <|
  match entryTopology measureTopology first, entryTopology measureTopology second with
  | none, none => compareCapacityBeamEntries first second
  | none, some _ => .gt
  | some _, none => .lt
  | some firstTopology, some secondTopology =>
      let difference := match metric with
        | .isolated => compare firstTopology.isolatedPieceCount
            secondTopology.isolatedPieceCount
        | .largestComponent => compare secondTopology.largestPositiveContactComponentSize
            firstTopology.largestPositiveContactComponentSize
        | .componentCount => compare firstTopology.positiveContactComponentCount
            secondTopology.positiveContactComponentCount
        | .hullWaste => compareExactHullWaste firstTopology secondTopology
      difference.then (compareCapacityBeamEntries first second)

/-! ## §3  Retention -/

/-- `reserve_into_beam`: append new entries in order, at most `maximum` of them
and up to the beam width. -/
def reserveIntoBeam (jsonString : String → String) (maximum beamWidth : ℕ) :
    ℕ → List (CapacityBeamEntry heap π) → List (CapacityBeamEntry heap π) →
      List (CapacityBeamEntry heap π)
  | _, retained, [] => retained
  | added, retained, entry :: ordered =>
      if beamWidth ≤ retained.length then retained
      else if retained.any fun kept =>
          kept.successorIdentity jsonString = entry.successorIdentity jsonString then
        reserveIntoBeam jsonString maximum beamWidth added retained ordered
      else if maximum ≤ added + 1 ∨ beamWidth ≤ (retained ++ [entry]).length then
        retained ++ [entry]
      else
        reserveIntoBeam jsonString maximum beamWidth (added + 1) (retained ++ [entry])
          ordered

def sortedBy (compare : CapacityBeamEntry heap π → CapacityBeamEntry heap π → Ordering)
    (entries : List (CapacityBeamEntry heap π)) : List (CapacityBeamEntry heap π) :=
  entries.mergeSort (sortLe compare)

/-- A sequence of reservations, each from its own order and with its own
maximum. -/
def reserveAll (jsonString : String → String) (beamWidth : ℕ)
    (reservations : List (ℕ × List (CapacityBeamEntry heap π))) :
    List (CapacityBeamEntry heap π) :=
  reservations.foldl (fun retained reservation =>
    reserveIntoBeam jsonString reservation.1 beamWidth 0 retained reservation.2) []

/-- `retain_capacity_cohesion_frontier`, with the widths of the objective bucket
and of the two topology buckets. -/
def retainCapacityCohesionFrontier (jsonString : String → String)
    (measureTopology : List (IrregularPlacedPiece F) → Option CanonicalLayoutTopologyExact)
    (beamWidth objectiveBucketWidth topologyBucketWidth : ℕ)
    (entries : List (CapacityBeamEntry heap π)) : List (CapacityBeamEntry heap π) :=
  let byObjective := sortedBy compareCapacityBeamEntries entries
  reserveAll jsonString beamWidth
    [(objectiveBucketWidth, byObjective),
      (topologyBucketWidth,
        sortedBy (compareTopologyMetric measureTopology .isolated) entries),
      (topologyBucketWidth,
        sortedBy (compareTopologyMetric measureTopology .largestComponent) entries),
      (beamWidth, sortedBy (fun first second =>
        (compareTopologyMetric measureTopology .componentCount first second).then
          (compareTopologyMetric measureTopology .hullWaste first second)) entries),
      (beamWidth, byObjective)]

/-- `retain_capacity_beam_entries`. -/
def retainCapacityBeamEntries (jsonString : String → String)
    (measureTopology : List (IrregularPlacedPiece F) → Option CanonicalLayoutTopologyExact)
    (beamWidth : ℕ) (mode : IntrinsicCapacityRetentionMode)
    (entries : List (CapacityBeamEntry heap π)) : List (CapacityBeamEntry heap π) :=
  match mode with
  | .objective => (sortedBy compareCapacityBeamEntries entries).take beamWidth
  | .areaFirstShadow =>
      (sortedBy compareCapacityBeamEntriesAreaFirst entries).take beamWidth
  | .cohesionFrontier | .cohesionFrontierShadow =>
      let width := max 1 (beamWidth / 4)
      retainCapacityCohesionFrontier jsonString measureTopology beamWidth width width
        entries
  | .qualityFrontier =>
      retainCapacityCohesionFrontier jsonString measureTopology beamWidth
        (max 1 (beamWidth - 4)) 1 entries
  | .axisBucketsShadow =>
      let byObjective := sortedBy compareCapacityBeamEntries entries
      reserveAll jsonString beamWidth
        [(max 1 (beamWidth - 8), byObjective),
          (4, sortedBy compareCapacityBeamEntriesWidthFirst entries),
          (4, sortedBy compareCapacityBeamEntriesHeightFirst entries),
          (beamWidth, byObjective)]

theorem mem_reserveIntoBeam {jsonString : String → String} {maximum beamWidth : ℕ}
    {ordered : List (CapacityBeamEntry heap π)} {entry : CapacityBeamEntry heap π} :
    ∀ {added : ℕ} {retained : List (CapacityBeamEntry heap π)},
      entry ∈ reserveIntoBeam jsonString maximum beamWidth added retained ordered →
        entry ∈ retained ∨ entry ∈ ordered := by
  induction ordered with
  | nil =>
      intro added retained h
      exact .inl h
  | cons first ordered ih =>
      intro added retained h
      unfold reserveIntoBeam at h
      split at h
      · exact .inl h
      · split at h
        · exact (ih h).imp_right (List.mem_cons_of_mem _)
        · split at h
          · rcases List.mem_append.mp h with h | h
            · exact .inl h
            · exact .inr (List.mem_singleton.mp h ▸ List.mem_cons_self)
          · rcases ih h with h | h
            · rcases List.mem_append.mp h with h | h
              · exact .inl h
              · exact .inr (List.mem_singleton.mp h ▸ List.mem_cons_self)
            · exact .inr (List.mem_cons_of_mem _ h)

theorem mem_reserveAll {jsonString : String → String} {beamWidth : ℕ}
    {entries : List (CapacityBeamEntry heap π)} {entry : CapacityBeamEntry heap π}
    {reservations : List (ℕ × List (CapacityBeamEntry heap π))}
    (hfrom : ∀ reservation ∈ reservations, ∀ e ∈ reservation.2, e ∈ entries)
    (h : entry ∈ reserveAll jsonString beamWidth reservations) : entry ∈ entries := by
  have hfold : ∀ (rest : List (ℕ × List (CapacityBeamEntry heap π)))
      (retained : List (CapacityBeamEntry heap π)),
      (∀ reservation ∈ rest, ∀ e ∈ reservation.2, e ∈ entries) →
      (∀ e ∈ retained, e ∈ entries) →
      ∀ e ∈ rest.foldl (fun retained reservation => reserveIntoBeam jsonString
        reservation.1 beamWidth 0 retained reservation.2) retained, e ∈ entries := by
    intro rest
    induction rest with
    | nil => intro retained _ hretained; exact hretained
    | cons reservation rest ih =>
        intro retained hrest hretained
        refine ih _ (fun r hr => hrest r (List.mem_cons_of_mem _ hr)) ?_
        intro e he
        rcases mem_reserveIntoBeam he with he | he
        · exact hretained e he
        · exact hrest reservation List.mem_cons_self e he
  exact hfold reservations [] hfrom (by simp) entry h

theorem mem_sortedBy {compare : CapacityBeamEntry heap π → CapacityBeamEntry heap π →
    Ordering} {entries : List (CapacityBeamEntry heap π)}
    {entry : CapacityBeamEntry heap π} :
    entry ∈ sortedBy compare entries ↔ entry ∈ entries :=
  List.mem_mergeSort

/-- **Every mode retains entries it was offered.** -/
theorem mem_retainCapacityBeamEntries {jsonString : String → String}
    {measureTopology : List (IrregularPlacedPiece F) → Option CanonicalLayoutTopologyExact}
    {beamWidth : ℕ} {mode : IntrinsicCapacityRetentionMode}
    {entries : List (CapacityBeamEntry heap π)} {entry : CapacityBeamEntry heap π}
    (h : entry ∈ retainCapacityBeamEntries jsonString measureTopology beamWidth mode
      entries) : entry ∈ entries := by
  cases mode with
  | objective => exact mem_sortedBy.mp (List.mem_of_mem_take h)
  | areaFirstShadow => exact mem_sortedBy.mp (List.mem_of_mem_take h)
  | axisBucketsShadow =>
      refine mem_reserveAll ?_ h
      simp [mem_sortedBy]
  | cohesionFrontier =>
      refine mem_reserveAll ?_ h
      simp [mem_sortedBy]
  | cohesionFrontierShadow =>
      refine mem_reserveAll ?_ h
      simp [mem_sortedBy]
  | qualityFrontier =>
      refine mem_reserveAll ?_ h
      simp [mem_sortedBy]

theorem length_reserveIntoBeam_le {jsonString : String → String} {maximum beamWidth : ℕ}
    {ordered : List (CapacityBeamEntry heap π)} :
    ∀ {added : ℕ} {retained : List (CapacityBeamEntry heap π)},
      retained.length ≤ beamWidth →
        (reserveIntoBeam jsonString maximum beamWidth added retained ordered).length ≤
          beamWidth := by
  induction ordered with
  | nil =>
      intro added retained h
      exact h
  | cons first ordered ih =>
      intro added retained h
      unfold reserveIntoBeam
      split
      · exact h
      · next hroom =>
        have hadded : (retained ++ [first]).length ≤ beamWidth := by
          rw [List.length_append, List.length_singleton]
          omega
        split
        · exact ih h
        · split
          · exact hadded
          · exact ih hadded

theorem length_reserveAll_le {jsonString : String → String} {beamWidth : ℕ}
    (reservations : List (ℕ × List (CapacityBeamEntry heap π))) :
    (reserveAll jsonString beamWidth reservations).length ≤ beamWidth := by
  have hfold : ∀ (reservations : List (ℕ × List (CapacityBeamEntry heap π)))
      (retained : List (CapacityBeamEntry heap π)), retained.length ≤ beamWidth →
      (reservations.foldl (fun retained reservation => reserveIntoBeam jsonString
        reservation.1 beamWidth 0 retained reservation.2) retained).length ≤
        beamWidth := by
    intro reservations
    induction reservations with
    | nil => intro retained h; exact h
    | cons reservation reservations ih =>
        intro retained h
        exact ih _ (length_reserveIntoBeam_le h)
  exact hfold reservations [] (Nat.zero_le _)

/-- **No mode retains more than the beam width.** -/
theorem length_retainCapacityBeamEntries_le {jsonString : String → String}
    {measureTopology : List (IrregularPlacedPiece F) → Option CanonicalLayoutTopologyExact}
    {beamWidth : ℕ} (mode : IntrinsicCapacityRetentionMode)
    (entries : List (CapacityBeamEntry heap π)) :
    (retainCapacityBeamEntries jsonString measureTopology beamWidth mode
      entries).length ≤ beamWidth := by
  cases mode with
  | objective => exact List.length_take_le _ _
  | areaFirstShadow => exact List.length_take_le _ _
  | axisBucketsShadow => exact length_reserveAll_le _
  | cohesionFrontier => exact length_reserveAll_le _
  | cohesionFrontierShadow => exact length_reserveAll_le _
  | qualityFrontier => exact length_reserveAll_le _

end PolygonNesting
