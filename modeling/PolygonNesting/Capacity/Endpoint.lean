import PolygonNesting.Search.Orientation

/-!
# Capacity endpoints

A capacity endpoint is one exact partial layout with a complete placed/unplaced
partition: the bottom-left anchored state in the legal orientation with the
smaller hash, with its metrics.

What the endpoint takes from other subsystems (the Clipper measurements, the
layout identity and its hash, the locale order) are the fields of
`LayoutAuthority`.  Counts and grid lengths are integer-valued `f64` in the
source, doubled areas are `BigInt` or their decimal texts; here they are
integers.
-/

namespace PolygonNesting

variable {F : Type} [LinearOrder F] [Zero F] [One F] [Add F] [Sub F] [Neg F]
  [Mul F] [Div F] [JsMath F] {heap : ℕ → IrregularPlacedPiece F} {π : Type}

/-! ## §1  Values -/

inductive IntrinsicCapacityEndpointOrigin where
  | coldSearch
  | prefixIncumbent
  | warmPrefixContinuation
  deriving DecidableEq

structure IntrinsicCapacityCavityMetrics (F : Type) where
  count : ℕ
  totalAreaMm2 : F
  totalDoubledAreaGrid2 : ℤ
  deriving DecidableEq

structure IntrinsicCapacityGridSpan where
  widthGrid : ℤ
  heightGrid : ℤ
  deriving DecidableEq

structure IntrinsicCapacityEndpointMetrics (F : Type) where
  placedCount : ℕ
  placedDoubledMaterialAreaGrid2 : ℤ
  placedMaterialAreaMm2 : F
  enclosedCavityCount : ℕ
  totalEnclosedCavityAreaMm2 : F
  totalEnclosedCavityDoubledAreaGrid2 : ℤ
  envelopeMaximumSideMm : F
  envelopeAreaMm2 : F
  envelopeSpanMm : F
  envelopeMaximumSideGrid : ℤ
  envelopeAreaGrid2 : ℤ
  envelopeSpanGrid : ℤ
  deriving DecidableEq

structure IntrinsicCapacityEndpoint (heap : ℕ → IrregularPlacedPiece F) where
  origin : IntrinsicCapacityEndpointOrigin
  sourceRole : Option String
  prefixDepth : Option ℕ
  placedPreparedIds : List PieceId
  unplacedPreparedIds : List PieceId
  selectedRotationDeg : IrregularQuarterTurnDegrees
  canonicalGeometryIdentity : String
  canonicalGeometryHash : String
  placedCollisionGeometries : List (PlacedArc heap)
  metrics : IntrinsicCapacityEndpointMetrics F
  deriving DecidableEq

/-- Exact material area by prepared id; a map that is only looked up. -/
abbrev MaterialAreas := PieceId → Option ℤ

abbrev IntrinsicCapacityCavityCache (F : Type) :=
  AList fun _ : String => IntrinsicCapacityCavityMetrics F

/-- What the endpoint takes from other subsystems, and the allocator. -/
structure LayoutAuthority (heap : ℕ → IrregularPlacedPiece F) where
  alloc : IrregularPlacedPiece F → PlacedArc heap
  intersection : CanonicalGridPath → CanonicalGridPath → List CanonicalGridPath
  canonicalCollisionLayoutIdentity : List (IrregularPlacedPiece F) → Option String
  measureCanonicalLayoutEnvelope :
    List (IrregularPlacedPiece F) → Option (CanonicalLayoutEnvelopeMetrics F)
  measureCanonicalEnclosedCavities :
    List (IrregularPlacedPiece F) → Option (IntrinsicCapacityCavityMetrics F)
  sha256Hex : String → String
  localeCompareKeys : String → String → Ordering

/-- The pieces behind a list of pointers. -/
def toOwnedPlaced (placed : List (PlacedArc heap)) : List (IrregularPlacedPiece F) :=
  placed.map fun arc => arc.piece

/-- The order of a stable sort by a comparator. -/
def sortLe {α : Type} (compare : α → α → Ordering) (first second : α) : Bool :=
  compare first second != .gt

/-! ## §2  Measuring one state -/

def noCavities : IntrinsicCapacityCavityMetrics F := ⟨0, 0, 0⟩

/-- `measure_intrinsic_capacity_cavities_with_key`: nothing placed, then the
cache, then the measurement, whose failures are not cached. -/
def measureIntrinsicCapacityCavitiesWithKey (authority : LayoutAuthority heap)
    (state : IrregularBeamState heap π) (anchoredOccupiedKey : String)
    (cache : IntrinsicCapacityCavityCache F) :
    Option (IntrinsicCapacityCavityMetrics F) × IntrinsicCapacityCavityCache F :=
  if state.placedCollisionGeometries.isEmpty then (some noCavities, cache)
  else
    match cache.lookup anchoredOccupiedKey with
    | some cached => (some cached, cache)
    | none =>
        match authority.measureCanonicalEnclosedCavities
            (toOwnedPlaced state.placedCollisionGeometries) with
        | none => (none, cache)
        | some metrics => (some metrics, cache.insert anchoredOccupiedKey metrics)

def measureIntrinsicCapacityCavities (authority : LayoutAuthority heap)
    (state : IrregularBeamState heap π) (cache : IntrinsicCapacityCavityCache F) :
    Option (IntrinsicCapacityCavityMetrics F) × IntrinsicCapacityCavityCache F :=
  if state.placedCollisionGeometries.isEmpty then
    measureIntrinsicCapacityCavitiesWithKey authority state "" cache
  else
    match state.bottomLeftAnchoredCanonicalOccupiedGeometryKey with
    | none => (none, cache)
    | some occupiedKey =>
        measureIntrinsicCapacityCavitiesWithKey authority state occupiedKey cache

def intrinsicCapacityStateGridSpan (state : IrregularBeamState heap π) :
    Option IntrinsicCapacityGridSpan := do
  let bounds ← state.translatedCollisionBounds
  let minX ← toGridMm bounds.minX
  let minY ← toGridMm bounds.minY
  let maxX ← toGridMm bounds.maxX
  let maxY ← toGridMm bounds.maxY
  some ⟨maxX - minX, maxY - minY⟩

/-- The span fits the sheet as it is, and turned. -/
def intrinsicCapacitySpanFitsSheet (span : IntrinsicCapacityGridSpan)
    (sheetWidthGrid sheetHeightGrid : ℤ) : Bool × Bool :=
  (decide (span.widthGrid ≤ sheetWidthGrid ∧ span.heightGrid ≤ sheetHeightGrid),
    decide (span.heightGrid ≤ sheetWidthGrid ∧ span.widthGrid ≤ sheetHeightGrid))

def sumMaterialAreas (pieceIds : List PieceId) (areas : MaterialAreas) : Option ℤ :=
  pieceIds.foldlM (fun sum pieceId => (areas pieceId).map (sum + ·)) 0

/-! ## §3  Materialization -/

def intrinsicCapacityEmptyLayoutIdentity : String := "intrinsic-capacity-empty-layout-v1"

structure MaterializeIntrinsicCapacityEndpointInput
    (heap : ℕ → IrregularPlacedPiece F) (π : Type) where
  sheet : SheetSpec F
  state : IrregularBeamState heap π
  unplacedPreparedIds : List PieceId
  origin : IntrinsicCapacityEndpointOrigin
  sourceRole : Option String
  prefixDepth : Option ℕ
  materialAreasByPieceId : MaterialAreas

structure LegalOrientation (heap : ℕ → IrregularPlacedPiece F) (π : Type) where
  rotationDeg : IrregularQuarterTurnDegrees
  identity : String
  hash : String
  oriented : IrregularBeamState heap π

/-- One orientation, if it passes the grid gate and has an identity. -/
def legalOrientation (authority : LayoutAuthority heap) (sheet : SheetSpec F)
    (state : IrregularBeamState heap π) (rotationDeg : IrregularQuarterTurnDegrees) :
    Option (LegalOrientation heap π) := do
  let oriented ← state.withQuarterTurnBottomLeft authority.alloc rotationDeg
  let owned := toOwnedPlaced oriented.placedCollisionGeometries
  if !assertCanonicalGridLegalLayout authority.intersection sheet owned then none
  else do
    let identity ← authority.canonicalCollisionLayoutIdentity owned
    some ⟨rotationDeg, identity, authority.sha256Hex identity, oriented⟩

/-- By hash in locale order, then 0 before 90 degrees. -/
def compareLegalOrientations (authority : LayoutAuthority heap)
    (first second : LegalOrientation heap π) : Ordering :=
  (authority.localeCompareKeys first.hash second.hash).then
    (compare first.rotationDeg.asDegrees second.rotationDeg.asDegrees)

def makeEmptyIntrinsicCapacityEndpoint (authority : LayoutAuthority heap)
    (unplacedPreparedIds : List PieceId) (origin : IntrinsicCapacityEndpointOrigin)
    (sourceRole : Option String) (prefixDepth : Option ℕ) :
    IntrinsicCapacityEndpoint heap where
  origin := origin
  sourceRole := sourceRole
  prefixDepth := prefixDepth
  placedPreparedIds := []
  unplacedPreparedIds := unplacedPreparedIds
  selectedRotationDeg := .zero
  canonicalGeometryIdentity := intrinsicCapacityEmptyLayoutIdentity
  canonicalGeometryHash := authority.sha256Hex intrinsicCapacityEmptyLayoutIdentity
  placedCollisionGeometries := []
  metrics := ⟨0, 0, 0, 0, 0, 0, 0, 0, 0, 0, 0, 0⟩

/-- `doubled_grid2_to_mm2`. -/
def doubledGrid2ToMm2 (doubledAreaGrid2 : ℤ) : F :=
  JsMath.ofInt doubledAreaGrid2 / JsNumber.ofNat 2000000

/-- `materialize_intrinsic_capacity_endpoint`. -/
def materializeIntrinsicCapacityEndpoint (authority : LayoutAuthority heap)
    (input : MaterializeIntrinsicCapacityEndpointInput heap π)
    (cache : IntrinsicCapacityCavityCache F) :
    Option (IntrinsicCapacityEndpoint heap) × IntrinsicCapacityCavityCache F :=
  let placedPreparedIds := input.state.placementOrder
  if placedPreparedIds.isEmpty then
    (some (makeEmptyIntrinsicCapacityEndpoint authority input.unplacedPreparedIds
      input.origin input.sourceRole input.prefixDepth), cache)
  else
    match measureIntrinsicCapacityCavities authority input.state cache with
    | (none, cache) => (none, cache)
    | (some cavities, cache) => (do
        let material ← sumMaterialAreas placedPreparedIds input.materialAreasByPieceId
        let legal := [IrregularQuarterTurnDegrees.zero, .ninety].filterMap
          (legalOrientation authority input.sheet input.state)
        let selected ←
          (legal.mergeSort (sortLe (compareLegalOrientations authority))).head?
        let envelope ← authority.measureCanonicalLayoutEnvelope
          (toOwnedPlaced selected.oriented.placedCollisionGeometries)
        some {
          origin := input.origin
          sourceRole := input.sourceRole
          prefixDepth := input.prefixDepth
          placedPreparedIds := placedPreparedIds
          unplacedPreparedIds := input.unplacedPreparedIds
          selectedRotationDeg := selected.rotationDeg
          canonicalGeometryIdentity := selected.identity
          canonicalGeometryHash := selected.hash
          placedCollisionGeometries := selected.oriented.placedCollisionGeometries
          metrics := {
            placedCount := placedPreparedIds.length
            placedDoubledMaterialAreaGrid2 := material
            placedMaterialAreaMm2 := doubledGrid2ToMm2 material
            enclosedCavityCount := cavities.count
            totalEnclosedCavityAreaMm2 := cavities.totalAreaMm2
            totalEnclosedCavityDoubledAreaGrid2 := cavities.totalDoubledAreaGrid2
            envelopeMaximumSideMm := envelope.maximumSideMm
            envelopeAreaMm2 := envelope.areaMm2
            envelopeSpanMm := envelope.spanMm
            envelopeMaximumSideGrid := envelope.maximumSideGrid
            envelopeAreaGrid2 := envelope.envelopeAreaGrid2
            envelopeSpanGrid := envelope.spanGrid } }, cache)

/-! ## §4  The objective -/

/-- `intrinsic_capacity_origin_rank`. -/
def intrinsicCapacityOriginRank : IntrinsicCapacityEndpointOrigin → ℕ
  | .coldSearch => 0
  | .prefixIncumbent => 1
  | .warmPrefixContinuation => 1

/-- A missing prefix depth ranks as -1. -/
def prefixDepthRank (prefixDepth : Option ℕ) : ℤ :=
  match prefixDepth with
  | none => -1
  | some depth => depth

/-- `compare_intrinsic_capacity_endpoints`: the eleven keys of the capacity
objective, in order. -/
def compareIntrinsicCapacityEndpoints (authority : LayoutAuthority heap)
    (first second : IntrinsicCapacityEndpoint heap) : Ordering :=
  (compare second.metrics.placedCount first.metrics.placedCount).then <|
  (compare second.metrics.placedDoubledMaterialAreaGrid2
    first.metrics.placedDoubledMaterialAreaGrid2).then <|
  (compare first.metrics.enclosedCavityCount second.metrics.enclosedCavityCount).then <|
  (compare first.metrics.totalEnclosedCavityDoubledAreaGrid2
    second.metrics.totalEnclosedCavityDoubledAreaGrid2).then <|
  (compare first.metrics.envelopeMaximumSideGrid
    second.metrics.envelopeMaximumSideGrid).then <|
  (compare first.metrics.envelopeAreaGrid2 second.metrics.envelopeAreaGrid2).then <|
  (compare first.metrics.envelopeSpanGrid second.metrics.envelopeSpanGrid).then <|
  (authority.localeCompareKeys first.canonicalGeometryHash
    second.canonicalGeometryHash).then <|
  (compare (intrinsicCapacityOriginRank first.origin)
    (intrinsicCapacityOriginRank second.origin)).then <|
  (compare (prefixDepthRank first.prefixDepth) (prefixDepthRank second.prefixDepth)).then <|
  authority.localeCompareKeys (first.sourceRole.getD "") (second.sourceRole.getD "")

/-- Keep the better endpoint under each geometry hash. -/
def insertEndpointByHash (authority : LayoutAuthority heap)
    (byHash : AList fun _ : String => IntrinsicCapacityEndpoint heap)
    (endpoint : IntrinsicCapacityEndpoint heap) :
    AList fun _ : String => IntrinsicCapacityEndpoint heap :=
  match byHash.lookup endpoint.canonicalGeometryHash with
  | none => byHash.insert endpoint.canonicalGeometryHash endpoint
  | some existing =>
      if compareIntrinsicCapacityEndpoints authority endpoint existing = .lt then
        byHash.insert endpoint.canonicalGeometryHash endpoint
      else byHash

/-- The endpoints of the map in objective order.  The source lists its hash map
in some order first; different hashes never tie. -/
def rankedEndpoints (authority : LayoutAuthority heap)
    (byHash : AList fun _ : String => IntrinsicCapacityEndpoint heap) :
    List (IntrinsicCapacityEndpoint heap) :=
  (byHash.entries.map fun entry => entry.2).mergeSort
    (sortLe (compareIntrinsicCapacityEndpoints authority))

/-- `intrinsic_capacity_endpoint_partitions_request`. -/
def intrinsicCapacityEndpointPartitionsRequest
    (placedPreparedIds unplacedPreparedIds allPreparedIds : List PieceId) : Bool :=
  let partition := placedPreparedIds ++ unplacedPreparedIds
  if partition.length ≠ allPreparedIds.length then false
  else if partition.dedup.length ≠ partition.length then false
  else partition.all fun pieceId => allPreparedIds.contains pieceId

end PolygonNesting
