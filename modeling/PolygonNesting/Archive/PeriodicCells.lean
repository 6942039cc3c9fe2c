import PolygonNesting.Canonical.Contact
import PolygonNesting.Canonical.LayoutIdentity
import PolygonNesting.Validation.Placement

/-!
# Periodic cells

A periodic cell is a list of members and a lattice basis.  The 3×3 diagnostic
places the members at nine translates, each checked against all before it; the
far-neighbour certificate compares the determinant of the basis with the
diameter of the cell.  A crop places the members at finitely many translates
and is kept when every placement passes the same check.

The control that may abort a call is left out, and the topology of a layout and
its envelope are parameters: they decide which legal crops are kept.
-/

namespace PolygonNesting

variable {F : Type} [LinearOrder F] [Zero F] [One F] [Add F] [Sub F] [Neg F]
  [Mul F] [Div F] [JsMath F]

/-! ## §1  Grid points -/

structure GridPoint where
  x : ℤ
  y : ℤ
  deriving DecidableEq

def gridPoint (point : IrregularPoint F) : Option GridPoint := do
  let x ← toGridMm point.x
  let y ← toGridMm point.y
  some ⟨x, y⟩

def fromGridPoint (point : GridPoint) : IrregularPoint F :=
  ⟨fromGrid point.x, fromGrid point.y⟩

def crossGrid (first second : GridPoint) : ℤ :=
  first.x * second.y - first.y * second.x

/-- `base + n·v1 + m·v2`. -/
def latticePoint (basis : GridPoint × GridPoint) (n m : ℤ) (base : GridPoint) : GridPoint :=
  ⟨base.x + n * basis.1.x + m * basis.2.x, base.y + n * basis.1.y + m * basis.2.y⟩

/-! ## §2  Placements -/

structure IntrinsicPeriodicVector (F : Type) where
  x : F
  y : F
  deriving DecidableEq

structure IntrinsicPeriodicBaseMember (F : Type) where
  piece : IrregularPreparedPiece F
  geometry : TransformedCollisionGeometry F
  point : IrregularPoint F
  deriving DecidableEq

/-- Where the member stands in the translate `(n, m)`; none off the grid. -/
def latticePosition (basis : GridPoint × GridPoint) (member : IntrinsicPeriodicBaseMember F)
    (n m : ℤ) : Option (IrregularPoint F) :=
  (gridPoint member.point).map fun base => fromGridPoint (latticePoint basis n m base)

def makePlaced (piece : IrregularPreparedPiece F) (geometry : TransformedCollisionGeometry F)
    (point : IrregularPoint F) : IrregularPlacedPiece F where
  placement := {
    pieceId := some (piece.pieceId.getD piece.sourceId)
    sourcePieceId := piece.sourceId
    placementReference := some piece.collisionGeometry.placementReference
    transform := ⟨point.x, point.y, geometry.transform.rotationDeg,
      geometry.transform.mirrored⟩ }
  collisionGeometry := geometry

def geometryForPiece (geometry : TransformedCollisionGeometry F)
    (piece : IrregularPreparedPiece F) : TransformedCollisionGeometry F where
  sourcePieceId := piece.sourceId
  transform := geometry.transform
  polygon := geometry.polygon
  bounds := geometry.bounds

/-- The heap `check_sheetless` allocates: the placed pieces in order.  Nothing reads
past them. -/
def placedHeap (placed : List (IrregularPlacedPiece F))
    (moving : TransformedCollisionGeometry F) (index : ℕ) : IrregularPlacedPiece F :=
  placed.getD index ⟨⟨none, moving.sourcePieceId, none, ⟨0, 0, 0, false⟩⟩, moving⟩

def checkSheetless (placed : List (IrregularPlacedPiece F))
    (moving : TransformedCollisionGeometry F) (candidatePoint : IrregularPoint F) :
    Except IrregularGeometryInputError Bool :=
  checkPlacement
    ({ sheet := none
       placed := (List.range placed.length).map PlacedArc.mk
       placedCollisionIndex := none
       moving
       candidatePoint } : AssessPlacementInput (placedHeap placed moving)) false

/-! ## §3  The far-neighbour certificate -/

/-- The world vertices of one member; none off the grid.  A vertex without a grid point is
skipped. -/
def memberGridVertices (member : IntrinsicPeriodicBaseMember F) : Option (List GridPoint) :=
  (gridPoint member.point).map fun translation =>
    member.geometry.polygon.points.filterMap fun vertex =>
      (gridPoint vertex).map fun onGrid =>
        ⟨onGrid.x + translation.x, onGrid.y + translation.y⟩

def worldGridVertices (members : List (IntrinsicPeriodicBaseMember F)) : List GridPoint :=
  members.flatMap fun member => (memberGridVertices member).getD []

def distanceSquared (first second : GridPoint) : ℤ :=
  (first.x - second.x) * (first.x - second.x) + (first.y - second.y) * (first.y - second.y)

/-- None when no vertex has a grid point. -/
def farNeighborMaximumDistanceSquared (members : List (IntrinsicPeriodicBaseMember F)) :
    Option ℤ :=
  let vertices := worldGridVertices members
  if vertices.isEmpty then none
  else some (vertices.foldl (fun maximum first =>
    vertices.foldl (fun maximum second =>
      let distance := distanceSquared first second
      if maximum < distance then distance else maximum) maximum) 0)

def farNeighborCertificateFromMaximum (maximumDistanceSquared : Option ℤ)
    (basis : GridPoint × GridPoint) : Bool :=
  match maximumDistanceSquared with
  | none => false
  | some maximumDistanceSquared =>
      let determinant := |crossGrid basis.1 basis.2|
      let f2 := basis.1.x * basis.1.x + basis.1.y * basis.1.y + basis.2.x * basis.2.x +
        basis.2.y * basis.2.y
      decide (maximumDistanceSquared * f2 < 4 * determinant * determinant)

def farNeighborCertificateGrid (members : List (IntrinsicPeriodicBaseMember F))
    (basis : GridPoint × GridPoint) : Bool :=
  farNeighborCertificateFromMaximum (farNeighborMaximumDistanceSquared members) basis

def farNeighborCertificate (members : List (IntrinsicPeriodicBaseMember F))
    (basis : IntrinsicPeriodicVector F × IntrinsicPeriodicVector F) : Bool :=
  match gridPoint (⟨basis.1.x, basis.1.y⟩ : IrregularPoint F),
      gridPoint (⟨basis.2.x, basis.2.y⟩ : IrregularPoint F) with
  | some first, some second => farNeighborCertificateGrid members (first, second)
  | _, _ => false

/-! ## §4  The 3×3 diagnostic -/

structure PeriodicLatticeDiagnostic (F : Type) where
  legal : Bool
  centreContactComplete : Bool
  sharedBoundaryLengthMm : F
  deriving DecidableEq

def illegalLatticeDiagnostic : PeriodicLatticeDiagnostic F := ⟨false, false, 0⟩

/-- The loop over `n`, then `m`, then the members. -/
def blockEntries {α : Type} (members : List α) : List (ℤ × ℤ × α) :=
  ([-1, 0, 1] : List ℤ).flatMap fun n => ([-1, 0, 1] : List ℤ).flatMap fun m =>
    members.map fun member => (n, m, member)

/-- Place the entries one after the other; none at the first that is off the grid or not
legal.  The indices of the central translate are collected. -/
def placeBlock (basis : GridPoint × GridPoint) :
    List (ℤ × ℤ × IntrinsicPeriodicBaseMember F) → List (IrregularPlacedPiece F) → List ℕ →
      Except IrregularGeometryInputError (Option (List (IrregularPlacedPiece F) × List ℕ))
  | [], placed, center => .ok (some (placed, center))
  | (n, m, member) :: rest, placed, center =>
      match latticePosition basis member n m with
      | none => .ok none
      | some point =>
          match checkSheetless placed member.geometry point with
          | .error error => .error error
          | .ok false => .ok none
          | .ok true =>
              placeBlock basis rest
                (placed ++ [makePlaced member.piece member.geometry point])
                (if n = 0 ∧ m = 0 then center ++ [placed.length] else center)

/-- The contacts of one central piece with the pieces of the other translates. -/
def centreContacts (placed : List (IrregularPlacedPiece F)) (center : List ℕ)
    (centerIndex : ℕ) (contacts : List ℕ × F) : Option (List ℕ × F) := do
  let first ← placed[centerIndex]?
  let firstPolygon ← translatePolygonWithBounds first.collisionGeometry.polygon
    (placedTranslation first)
  (placed.zipIdx.filter fun other => !center.contains other.2).foldlM (fun contacts other => do
    let otherPolygon ← translatePolygonWithBounds other.1.collisionGeometry.polygon
      (placedTranslation other.1)
    let contact ← sharedConvexPolygonBoundaryLength firstPolygon otherPolygon
    some (if 0 < contact then
      (if contacts.1.contains centerIndex then contacts.1 else contacts.1 ++ [centerIndex],
        contacts.2 + contact)
    else contacts)) contacts

def diagnoseLattice (members : List (IntrinsicPeriodicBaseMember F))
    (basis : GridPoint × GridPoint) :
    Except IrregularGeometryInputError (PeriodicLatticeDiagnostic F) :=
  match placeBlock basis (blockEntries members) [] [] with
  | .error error => .error error
  | .ok none => .ok illegalLatticeDiagnostic
  | .ok (some (placed, center)) =>
      match center.foldlM (fun contacts centerIndex =>
          centreContacts placed center centerIndex contacts) ([], 0) with
      | none => .ok illegalLatticeDiagnostic
      | some (contactedCenter, sharedBoundaryLengthMm) =>
          .ok ⟨true, contactedCenter.length == center.length, sharedBoundaryLengthMm⟩

/-! ## §5  Crops -/

inductive IntrinsicPeriodicRole where
  | p1
  | p2
  deriving DecidableEq

structure IntrinsicPeriodicCell (F : Type) where
  role : IntrinsicPeriodicRole
  members : List (IntrinsicPeriodicBaseMember F)
  v1 : IntrinsicPeriodicVector F
  v2 : IntrinsicPeriodicVector F
  canonicalKey : String

inductive IntrinsicPeriodicCropTraversal where
  | row
  | column
  deriving DecidableEq

structure CropCoordinate where
  row : ℤ
  column : ℤ
  deriving DecidableEq

/-- The order of the coordinates, as `≤`. -/
def coordinateLe (traversal : IntrinsicPeriodicCropTraversal) (first second : CropCoordinate) :
    Bool :=
  match traversal with
  | .row => decide (first.row < second.row ∨
      first.row = second.row ∧ first.column ≤ second.column)
  | .column => decide (first.column < second.column ∨
      first.column = second.column ∧ first.row ≤ second.row)

/-- The coordinate seen from a corner of the block. -/
def fromCorner (rows columns corner : ℕ) (coordinate : CropCoordinate) : CropCoordinate where
  row := if corner = 1 ∨ corner = 2 then rows - 1 - coordinate.row else coordinate.row
  column := if corner = 2 ∨ corner = 3 then columns - 1 - coordinate.column
    else coordinate.column

def cropCoordinates (rows columns count : ℕ) (traversal : IntrinsicPeriodicCropTraversal)
    (corner : ℕ) : List CropCoordinate :=
  let coordinates := (List.range rows).flatMap fun row : ℕ =>
    (List.range columns).map fun column : ℕ => (⟨row, column⟩ : CropCoordinate)
  ((coordinates.mergeSort (coordinateLe traversal)).take count).map
    (fromCorner rows columns corner)

structure IntrinsicPeriodicCropProvenance where
  rows : ℕ
  columns : ℕ
  traversal : IntrinsicPeriodicCropTraversal
  corner : ℕ
  deriving DecidableEq

structure IntrinsicPeriodicExactEnvelope where
  maximumSideGrid : ℤ
  areaGrid2 : ℤ
  spanGrid : ℤ
  deriving DecidableEq

structure IntrinsicPeriodicSeed (F : Type) where
  role : IntrinsicPeriodicRole
  cellKey : String
  placements : List (IrregularPlacedPiece F)
  remainingFamilyMembers : List (IrregularPreparedPiece F)
  componentCount : ℕ
  isolatedPieceCount : ℕ
  largestComponentSize : ℕ
  maximumSideMm : F
  envelopeAreaMm2 : F
  envelopeSpanMm : F
  exactEnvelope : Option IntrinsicPeriodicExactEnvelope
  crop : IntrinsicPeriodicCropProvenance
  canonicalKey : String

/-- `measure_canonical_layout_topology` and `measure_canonical_layout_envelope`. -/
structure LayoutMeasures (F : Type) where
  topology : List (IrregularPlacedPiece F) → Option CanonicalLayoutTopologyExact
  envelope : List (IrregularPlacedPiece F) → Option (CanonicalLayoutEnvelopeMetrics F)

structure PlacedBounds (F : Type) where
  minX : F
  minY : F
  width : F
  height : F

def placedBounds (placed : List (IrregularPlacedPiece F)) : Option (PlacedBounds F) :=
  (boundsForPoints (placed.flatMap fun entry =>
    entry.collisionGeometry.polygon.points.map (translatePoint (placedTranslation entry)))).map
      fun bounds => ⟨bounds.minX, bounds.minY, bounds.maxX - bounds.minX,
        bounds.maxY - bounds.minY⟩

/-- Move a placed piece by `(-x, -y)`. -/
def IrregularPlacedPiece.shiftBack (x y : F) (entry : IrregularPlacedPiece F) :
    IrregularPlacedPiece F :=
  { entry with
    placement := { entry.placement with
      transform := { entry.placement.transform with
        translateX := entry.placement.transform.translateX - x
        translateY := entry.placement.transform.translateY - y } } }

def normalizePlacedBottomLeft (placed : List (IrregularPlacedPiece F)) :
    List (IrregularPlacedPiece F) :=
  match placedBounds placed with
  | none => []
  | some bounds => placed.map (IrregularPlacedPiece.shiftBack bounds.minX bounds.minY)

section Crops

variable (measures : LayoutMeasures F) (cell : IntrinsicPeriodicCell F)
  (basis : GridPoint × GridPoint) (familyMembers : List (IrregularPreparedPiece F))

/-- One translate of the crop: each member takes the next piece of the family, whose index
is the number of pieces placed.  The flag is `legal`. -/
def placeCropMembers (coordinate : CropCoordinate) :
    List (IntrinsicPeriodicBaseMember F) → List (IrregularPlacedPiece F) →
      Except IrregularGeometryInputError (List (IrregularPlacedPiece F) × Bool)
  | [], placed => .ok (placed, true)
  | base :: rest, placed =>
      match familyMembers[placed.length]? with
      | none => .ok (placed, true)
      | some piece =>
          match latticePosition basis base coordinate.row coordinate.column with
          | none => .ok (placed, false)
          | some point =>
              let actualGeometry := geometryForPiece base.geometry piece
              match checkSheetless placed actualGeometry point with
              | .error error => .error error
              | .ok false => .ok (placed, false)
              | .ok true =>
                  placeCropMembers coordinate rest
                    (placed ++ [makePlaced piece actualGeometry point])

/-- The coordinates one after the other, up to the first that fails or to a full crop. -/
def placeCrop (size : ℕ) : List CropCoordinate → List (IrregularPlacedPiece F) →
    Except IrregularGeometryInputError (List (IrregularPlacedPiece F) × Bool)
  | [], placed => .ok (placed, true)
  | coordinate :: rest, placed =>
      match placeCropMembers basis familyMembers coordinate cell.members placed with
      | .error error => .error error
      | .ok (placed, legal) =>
          if !legal || decide (size ≤ placed.length) then .ok (placed, legal)
          else placeCrop size rest placed

structure CropState (F : Type) where
  candidates : List (IntrinsicPeriodicSeed F)
  identities : List String
  successfulCoordinateLayouts : List (List (ℤ × ℤ))

/-- The coordinates relative to their least row and column, sorted. -/
def coordinateLayout (coordinates : List CropCoordinate) : List (ℤ × ℤ) :=
  let minimumRow := ((coordinates.map CropCoordinate.row).min?).getD 0
  let minimumColumn := ((coordinates.map CropCoordinate.column).min?).getD 0
  (coordinates.map fun point => (point.row - minimumRow, point.column - minimumColumn)).mergeSort
    fun first second => decide (first.1 < second.1 ∨ first.1 = second.1 ∧ first.2 ≤ second.2)

/-- The candidate of a crop that was placed; none when a measure fails. -/
def cropSeed (q : ℕ) (crop : IntrinsicPeriodicCropProvenance)
    (normalized : List (IrregularPlacedPiece F)) : Option (IntrinsicPeriodicSeed F) := do
  let identity ← canonicalCollisionLayoutIdentity normalized
  let topology ← measures.topology normalized
  let envelope ← measures.envelope normalized
  let bounds ← placedBounds normalized
  some {
    role := cell.role
    cellKey := cell.canonicalKey
    placements := normalized
    remainingFamilyMembers := familyMembers.drop (q * cell.members.length)
    componentCount := topology.positiveContactComponentCount
    isolatedPieceCount := topology.isolatedPieceCount
    largestComponentSize := topology.largestPositiveContactComponentSize
    maximumSideMm := max bounds.width bounds.height
    envelopeAreaMm2 := bounds.width * bounds.height
    envelopeSpanMm := bounds.width + bounds.height
    exactEnvelope := some ⟨envelope.maximumSideGrid, envelope.envelopeAreaGrid2,
      envelope.spanGrid⟩
    crop
    canonicalKey := identity }

/-- One traversal from one corner. -/
def cropAttempt (q : ℕ) (crop : IntrinsicPeriodicCropProvenance) (state : CropState F) :
    Except IrregularGeometryInputError (CropState F) :=
  let coordinates := cropCoordinates crop.rows crop.columns q crop.traversal crop.corner
  let layout := coordinateLayout coordinates
  if state.successfulCoordinateLayouts.contains layout then .ok state
  else
    match placeCrop cell basis familyMembers (q * cell.members.length) coordinates [] with
    | .error error => .error error
    | .ok (placed, legal) =>
        if !legal || placed.length != q * cell.members.length then .ok state
        else
          let state := { state with
            successfulCoordinateLayouts := layout :: state.successfulCoordinateLayouts }
          match cropSeed measures cell familyMembers q crop (normalizePlacedBottomLeft placed) with
          | none => .ok state
          | some seed =>
              if state.identities.contains seed.canonicalKey then .ok state
              else .ok { state with
                candidates := state.candidates ++ [seed]
                identities := seed.canonicalKey :: state.identities }

/-- The loop over the rows, the traversals and the corners. -/
def cropAttempts (q : ℕ) : List IntrinsicPeriodicCropProvenance :=
  (List.range q).flatMap fun index =>
    ([.row, .column] : List IntrinsicPeriodicCropTraversal).flatMap fun traversal =>
      (List.range 4).map fun corner =>
        ⟨index + 1, (q + (index + 1) - 1) / (index + 1), traversal, corner⟩

def enumerateIntrinsicPeriodicCellCrops :
    Except IrregularGeometryInputError (List (IntrinsicPeriodicSeed F)) :=
  match gridPoint (⟨cell.v1.x, cell.v1.y⟩ : IrregularPoint F),
      gridPoint (⟨cell.v2.x, cell.v2.y⟩ : IrregularPoint F) with
  | some v1, some v2 =>
      if cell.members.length = 0 then .ok []
      else
        let q := familyMembers.length / cell.members.length
        if q < 1 then .ok []
        else
          ((cropAttempts q).foldlM (fun state crop =>
            cropAttempt measures cell (v1, v2) familyMembers q crop state)
            ⟨[], [], []⟩).map CropState.candidates
  | _, _ => .ok []

end Crops

end PolygonNesting
