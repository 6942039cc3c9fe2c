import PolygonNesting.Canonical.Contact
import PolygonNesting.Validation.SpatialIndex

/-!
# The beam state

A partial layout with six derived summaries: the sorted canonical keys of its
pieces, the key of the occupied geometry, the occupied bounds, the shared
boundary metrics with their signature counts, and the spatial index.  Every
transition updates the summaries from its parent's; `fromInput` computes them
from the list of placed pieces.

The parent link, kept for reconstructing a winning history, and the timing
callback enter no summary and are left out.
-/

namespace PolygonNesting

variable {F : Type} [LinearOrder F] [Zero F] [One F] [Add F] [Sub F] [Neg F]
  [Mul F] [Div F] [JsMath F] {heap : ℕ → IrregularPlacedPiece F} {π : Type}

/-! ## §1  Canonical keys -/

/-- `canonicalize_irregular_score_millimeter_units`: the 0.001 mm grid, ties
away from zero. -/
def canonicalizeIrregularScoreMillimeterUnits (valueMm : F) : Option F :=
  if !JsNumber.isFinite valueMm then none
  else
    let scaled := absolute valueMm * JsNumber.ofNat 1000
    if !JsNumber.isFinite scaled then none
    else
      let gridValue := sign valueMm * floorValue (scaled + half)
      if isSafeInteger gridValue then some gridValue else none

def normalizeCanonicalCoordinate (value : F) : F :=
  (canonicalizeIrregularScoreMillimeterUnits value).getD value

def canonicalPointKey (x y : F) : String :=
  canonicalToken "x" ++ canonicalToken (canonicalNumber x) ++
    canonicalToken "y" ++ canonicalToken (canonicalNumber y)

/-- The lowest vertex, leftmost among the lowest; the first of equals. -/
def ringStartIndex (coordinates : List (F × F)) : ℕ :=
  (List.range coordinates.length).foldl (fun start index =>
    match coordinates[index]?, coordinates[start]? with
    | some candidate, some current =>
        if candidate.2 < current.2 ∨
            candidate.2 = current.2 ∧ candidate.1 < current.1 then index else start
    | _, _ => start) 0

/-- The first offset at which the two directions differ decides; forward when
none does. -/
def forwardWins (keys : List String) (start : ℕ) : List ℕ → Bool
  | [] => true
  | offset :: offsets =>
      let forwardKey := keys.getD ((start + offset) % keys.length) ""
      let reverseKey := keys.getD ((start + keys.length * 2 - offset) % keys.length) ""
      if forwardKey = reverseKey then forwardWins keys start offsets
      else cmpJsCodeUnits forwardKey reverseKey == .lt

/-- `canonical_ring_key`: the ring without its start vertex and winding. -/
def canonicalRingKey (points : List (IrregularPoint F)) (translateX translateY : F) :
    String :=
  if points.isEmpty then canonicalToken "point-count" ++ canonicalToken "0"
  else
    let coordinates := points.map fun point =>
      (normalizeCanonicalCoordinate (point.x + translateX),
        normalizeCanonicalCoordinate (point.y + translateY))
    let keys := coordinates.map fun c => canonicalPointKey c.1 c.2
    let start := ringStartIndex coordinates
    let forward := forwardWins keys start ((List.range points.length).drop 1)
    canonicalToken "point-count" ++
      canonicalToken (canonicalNumber (JsNumber.ofNat points.length : F)) ++
      String.join ((List.range points.length).map fun offset =>
        let index := if forward then (start + offset) % points.length
          else (start + points.length * 2 - offset) % points.length
        canonicalToken ("point-" ++ toString offset) ++
          canonicalToken (keys.getD index ""))

def canonicalCollisionPolygonKey (points : List (IrregularPoint F))
    (translateX translateY : F) : String :=
  canonicalToken "polygon-ring" ++
    canonicalToken (canonicalRingKey points translateX translateY)

def canonicalPlacedGeometryKey (placed : IrregularPlacedPiece F) : String :=
  canonicalCollisionPolygonKey placed.collisionGeometry.polygon.points
    placed.placement.transform.translateX placed.placement.transform.translateY

/-- Before the first key that sorts after it, or at the end. -/
def insertCanonicalEntryKey (entryKey : String) : List String → List String
  | [] => [entryKey]
  | existing :: entryKeys =>
      if cmpJsCodeUnits entryKey existing = .lt then entryKey :: existing :: entryKeys
      else existing :: insertCanonicalEntryKey entryKey entryKeys

/-! ## §2  Occupied bounds -/

structure IrregularCollisionBounds (F : Type) where
  minX : F
  minY : F
  maxX : F
  maxY : F
  width : F
  height : F
  deriving DecidableEq

def emptyCollisionBounds : IrregularCollisionBounds F := ⟨0, 0, 0, 0, 0, 0⟩

/-- Bounds with their size, unless something is not finite. -/
def finiteCollisionBounds (minX minY maxX maxY : F) :
    Option (IrregularCollisionBounds F) :=
  let width := maxX - minX
  let height := maxY - minY
  if !JsNumber.isFinite minX || !JsNumber.isFinite minY ||
      !JsNumber.isFinite maxX || !JsNumber.isFinite maxY ||
      !JsNumber.isFinite width || !JsNumber.isFinite height then none
  else some ⟨minX, minY, maxX, maxY, width, height⟩

/-- `derive_placed_collision_bounds`.  The source starts from the infinities,
which the first point replaces. -/
def derivePlacedCollisionBounds (placed : IrregularPlacedPiece F) :
    Option (IrregularCollisionBounds F) :=
  match placed.collisionGeometry.polygon.points.map
      (translatePoint (placedTranslation placed)) with
  | [] => none
  | first :: rest =>
      if (first :: rest).all isFinitePoint then
        let b := rest.foldl extendBounds ⟨first.x, first.y, first.x, first.y⟩
        finiteCollisionBounds b.minX b.minY b.maxX b.maxY
      else none

def unionCollisionBounds (first second : IrregularCollisionBounds F) :
    Option (IrregularCollisionBounds F) :=
  finiteCollisionBounds (min first.minX second.minX) (min first.minY second.minY)
    (max first.maxX second.maxX) (max first.maxY second.maxY)

def extendCollisionBounds (current : Option (IrregularCollisionBounds F))
    (placed : IrregularPlacedPiece F) : Option (IrregularCollisionBounds F) := do
  let current ← current
  let placedBounds ← derivePlacedCollisionBounds placed
  unionCollisionBounds current placedBounds

def deriveCollisionBounds :
    List (PlacedArc heap) → Option (IrregularCollisionBounds F)
  | [] => some emptyCollisionBounds
  | first :: rest =>
      rest.foldl (fun bounds placed => extendCollisionBounds bounds placed.piece)
        (derivePlacedCollisionBounds first.piece)

/-! ## §3  Shared boundary -/

/-- A `HashMap` from signature to count. -/
abbrev SignatureCounts (F : Type) := AList fun _ : String => F

/-- Add to one count; `none` when the sum is no safe integer. -/
def addCount (counts : SignatureCounts F) (signature : String) (count : F) :
    Option (SignatureCounts F) :=
  let nextCount := (counts.lookup signature).getD 0 + count
  if isSafeInteger nextCount then some (counts.insert signature nextCount) else none

def addStructuralContactSignatures (counts : SignatureCounts F)
    (signatures : List String) : Option (SignatureCounts F) :=
  signatures.foldlM (fun counts signature => addCount counts signature 1) counts

/-- The source iterates its hash map in some order; the sums do not depend on
it. -/
def mergeStructuralContactSignatureCounts (target source : SignatureCounts F) :
    Option (SignatureCounts F) :=
  source.entries.foldlM (fun counts entry => addCount counts entry.1 entry.2) target

def dominantSignatureCount (counts : SignatureCounts F) : F :=
  counts.entries.foldl (fun dominant entry => max dominant entry.2) 0

structure SharedCollisionBoundaryMetrics (F : Type) where
  lengthMm : F
  normalizedUnits : F
  nearCompleteStructuralContactCount : F
  signatureCounts : SignatureCounts F

def noSharedBoundary : SharedCollisionBoundaryMetrics F := ⟨0, 0, 0, ∅⟩

/-- The sums are finite and the count is a safe integer. -/
def SharedCollisionBoundaryMetrics.sound
    (metrics : SharedCollisionBoundaryMetrics F) : Bool :=
  JsNumber.isFinite metrics.lengthMm && JsNumber.isFinite metrics.normalizedUnits &&
    isSafeInteger metrics.nearCompleteStructuralContactCount

def SharedCollisionBoundaryMetrics.checked
    (metrics : SharedCollisionBoundaryMetrics F) :
    Option (SharedCollisionBoundaryMetrics F) :=
  if metrics.sound then some metrics else none

/-- Add the contact with one existing entry. -/
def addContact (added : IrregularPolygonWithBounds F)
    (metrics : SharedCollisionBoundaryMetrics F)
    (existing : PlacedCollisionSpatialEntry heap) :
    Option (SharedCollisionBoundaryMetrics F) :=
  match existing.validation with
  | .invalid _ => none
  | .valid polygon => do
      let contact ← measureSharedConvexPolygonBoundaryContact added
        polygon.polygonWithBounds
      let signatureCounts ← addStructuralContactSignatures metrics.signatureCounts
        contact.nearCompleteStructuralContactSignatures
      (SharedCollisionBoundaryMetrics.mk (metrics.lengthMm + contact.lengthMm)
        (metrics.normalizedUnits + contact.normalizedUnits)
        (metrics.nearCompleteStructuralContactCount +
          contact.nearCompleteStructuralContactCount) signatureCounts).checked

def sharedBoundaryWithEntries (added : PlacedCollisionSpatialEntry heap)
    (existing : List (PlacedCollisionSpatialEntry heap)) :
    Option (SharedCollisionBoundaryMetrics F) :=
  match added.validation with
  | .invalid _ => none
  | .valid polygon => existing.foldlM (addContact polygon.polygonWithBounds)
      noSharedBoundary

/-- Add one entry's shared boundary to the sums. -/
def mergeSharedBoundary (metrics additional : SharedCollisionBoundaryMetrics F) :
    Option (SharedCollisionBoundaryMetrics F) := do
  let signatureCounts ← mergeStructuralContactSignatureCounts
    metrics.signatureCounts additional.signatureCounts
  (SharedCollisionBoundaryMetrics.mk (metrics.lengthMm + additional.lengthMm)
    (metrics.normalizedUnits + additional.normalizedUnits)
    (metrics.nearCompleteStructuralContactCount +
      additional.nearCompleteStructuralContactCount) signatureCounts).checked

/-- `derive_shared_collision_boundary_metrics`: every entry against all the
entries before it. -/
def deriveSharedCollisionBoundaryMetrics (placed : List (PlacedArc heap)) :
    Option (SharedCollisionBoundaryMetrics F) :=
  let index := makePlacedCollisionSpatialIndex placed none
  index.entries.foldlM (fun metrics entry => do
    let additional ← sharedBoundaryWithEntries entry
      (index.entries.take entry.ordinal)
    mergeSharedBoundary metrics additional) noSharedBoundary

/-- `extend_shared_collision_boundary_metrics`: the added entry against what
the index returns for its bounds. -/
def extendSharedCollisionBoundaryMetrics
    (current : Option (SharedCollisionBoundaryMetrics F))
    (existingIndex : PlacedCollisionSpatialIndex heap)
    (addedEntry : Option (PlacedCollisionSpatialEntry heap)) :
    Option (SharedCollisionBoundaryMetrics F) := do
  let metrics ← current
  let added ← addedEntry
  let bounds ← added.validation.bounds
  let additional ← sharedBoundaryWithEntries added (existingIndex.query (some bounds))
  mergeSharedBoundary metrics additional

/-! ## §4  The state -/

/-- What the constructor derives or a transition supplies. -/
structure DerivedMetadata (heap : ℕ → IrregularPlacedPiece F) where
  canonicalEntryKeys : List String
  canonicalOccupiedGeometryKey : String
  translatedCollisionBounds : Option (IrregularCollisionBounds F)
  sharedCollisionBoundaryLengthMm : Option F
  sharedCollisionBoundaryContactUnits : Option F
  nearCompleteStructuralContactCount : Option F
  dominantNearCompleteStructuralContactCount : Option F
  nearCompleteStructuralContactSignatureCounts : Option (SignatureCounts F)
  placedCollisionIndex : PlacedCollisionSpatialIndex heap

structure IrregularBeamState (heap : ℕ → IrregularPlacedPiece F) (π : Type)
    extends DerivedMetadata heap where
  remainingPreparedPieces : List π
  placedCollisionGeometries : List (PlacedArc heap)
  unplacedPieceIds : List PieceId
  unplacedSourcePieceIds : List PieceId
  placementOrder : List PieceId

structure IrregularBeamStateInput (heap : ℕ → IrregularPlacedPiece F) (π : Type)
    where
  remainingPreparedPieces : List π
  placedCollisionGeometries : List (PlacedArc heap)
  unplacedPieceIds : Option (List PieceId)
  unplacedSourcePieceIds : Option (List PieceId)
  placementOrder : List PieceId
  placedCollisionIndex : Option (PlacedCollisionSpatialIndex heap)

/-- The metadata with the shared boundary metrics spread over its fields. -/
def makeMetadata (canonicalEntryKeys : List String)
    (bounds : Option (IrregularCollisionBounds F))
    (shared : Option (SharedCollisionBoundaryMetrics F))
    (index : PlacedCollisionSpatialIndex heap) : DerivedMetadata heap where
  canonicalEntryKeys := canonicalEntryKeys
  canonicalOccupiedGeometryKey := canonicalEntryListKey F canonicalEntryKeys
  translatedCollisionBounds := bounds
  sharedCollisionBoundaryLengthMm := shared.map fun m => m.lengthMm
  sharedCollisionBoundaryContactUnits := shared.map fun m => m.normalizedUnits
  nearCompleteStructuralContactCount :=
    shared.map fun m => m.nearCompleteStructuralContactCount
  dominantNearCompleteStructuralContactCount :=
    shared.map fun m => dominantSignatureCount m.signatureCounts
  nearCompleteStructuralContactSignatureCounts := shared.map fun m => m.signatureCounts
  placedCollisionIndex := index

/-- `derive_metadata`. -/
def deriveMetadata (placed : List (PlacedArc heap)) : DerivedMetadata heap :=
  makeMetadata
    ((placed.map fun arc => canonicalPlacedGeometryKey arc.piece).mergeSort keyLe)
    (deriveCollisionBounds placed) (deriveSharedCollisionBoundaryMetrics placed)
    (makePlacedCollisionSpatialIndex placed none)

namespace IrregularBeamState

/-- The constructor.  An index is trusted only when it matches the list. -/
def construct (input : IrregularBeamStateInput heap π)
    (metadata : Option (DerivedMetadata heap)) : IrregularBeamState heap π :=
  let metadata := metadata.getD (deriveMetadata input.placedCollisionGeometries)
  let candidate := input.placedCollisionIndex.getD metadata.placedCollisionIndex
  let unplaced := (input.unplacedPieceIds.or input.unplacedSourcePieceIds).getD []
  { metadata with
    placedCollisionIndex :=
      if candidate.matches input.placedCollisionGeometries then candidate
      else makePlacedCollisionSpatialIndex input.placedCollisionGeometries none
    remainingPreparedPieces := input.remainingPreparedPieces
    placedCollisionGeometries := input.placedCollisionGeometries
    unplacedPieceIds := unplaced
    unplacedSourcePieceIds := unplaced
    placementOrder := input.placementOrder }

def empty (remainingPreparedPieces : List π) : IrregularBeamState heap π :=
  construct ⟨remainingPreparedPieces, [], none, some [], [], none⟩ none

def fromInput (input : IrregularBeamStateInput heap π) : IrregularBeamState heap π :=
  construct input none

/-- The metrics of a state; its five fields are present together or not at
all. -/
def sharedMetrics (state : IrregularBeamState heap π) :
    Option (SharedCollisionBoundaryMetrics F) := do
  let lengthMm ← state.sharedCollisionBoundaryLengthMm
  let normalizedUnits ← state.sharedCollisionBoundaryContactUnits
  let count ← state.nearCompleteStructuralContactCount
  let signatureCounts ← state.nearCompleteStructuralContactSignatureCounts
  some ⟨lengthMm, normalizedUnits, count, signatureCounts⟩

/-- `with_placement`. -/
def withPlacement (state : IrregularBeamState heap π)
    (remainingPreparedPieces : List π) (placed : PlacedArc heap)
    (placementOrderPieceId : PieceId) : IrregularBeamState heap π :=
  let index := state.placedCollisionIndex.add placed
  construct
    { remainingPreparedPieces := remainingPreparedPieces
      placedCollisionGeometries := state.placedCollisionGeometries ++ [placed]
      unplacedPieceIds := some state.unplacedPieceIds
      unplacedSourcePieceIds := none
      placementOrder := state.placementOrder ++ [placementOrderPieceId]
      placedCollisionIndex := none }
    (some (makeMetadata
      (insertCanonicalEntryKey (canonicalPlacedGeometryKey placed.piece)
        state.canonicalEntryKeys)
      (if state.placedCollisionGeometries.isEmpty then
        derivePlacedCollisionBounds placed.piece
      else extendCollisionBounds state.translatedCollisionBounds placed.piece)
      -- measured against the index before the addition
      (extendSharedCollisionBoundaryMetrics state.sharedMetrics
        state.placedCollisionIndex index.entries.getLast?)
      index))

/-- `with_unplaced_piece`. -/
def withUnplacedPiece (state : IrregularBeamState heap π)
    (remainingPreparedPieces : List π) (unplacedPieceId : PieceId) :
    IrregularBeamState heap π :=
  construct
    { remainingPreparedPieces := remainingPreparedPieces
      placedCollisionGeometries := state.placedCollisionGeometries
      unplacedPieceIds := some (state.unplacedPieceIds ++ [unplacedPieceId])
      unplacedSourcePieceIds := none
      placementOrder := state.placementOrder
      placedCollisionIndex := none }
    (some state.toDerivedMetadata)

end IrregularBeamState

end PolygonNesting
