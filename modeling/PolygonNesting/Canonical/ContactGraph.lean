import Mathlib.Data.Finset.Insert
import PolygonNesting.Canonical.GridContact
import PolygonNesting.Checkpoints.CanonicalJson
import PolygonNesting.Lib.GraphSearch

/-!
# Contact components

The polygons of a layout are the vertices of a graph, with an edge where two of them have a
positive contact.  Every polygon keeps the set of its neighbours, and a search from a stack
reads the sets in whatever order they are listed.  The components are sorted: the
identities in each, then the components by size, area and their identities joined.
-/

namespace PolygonNesting

/-! ## §1  Neighbours -/

/-- Every pair of indices once, the later first. -/
def indexPairs (count : ℕ) : List (ℕ × ℕ) :=
  (List.range count).flatMap fun firstIndex =>
    (List.range firstIndex).map fun secondIndex => (firstIndex, secondIndex)

section Neighbors

variable (F : Type) [LinearOrder F] [Zero F] [One F] [Add F] [Sub F] [Neg F]
  [Mul F] [Div F] [JsMath F]

def pathAt (polygons : List CanonicalPlacedPolygon) (index : ℕ) : CanonicalGridPath :=
  (polygons[index]?.map CanonicalPlacedPolygon.path).getD []

/-- One pair: a contact makes each the other's neighbour. -/
def addNeighbors (polygons : List CanonicalPlacedPolygon) (neighbors : List (Finset ℕ))
    (pair : ℕ × ℕ) : Option (List (Finset ℕ)) := do
  let hasPositiveContact ← hasPositiveCanonicalGridBoundaryContact F
    (pathAt polygons pair.1) (pathAt polygons pair.2)
  if hasPositiveContact then
    some ((neighbors.modify pair.1 (insert pair.2)).modify pair.2 (insert pair.1))
  else some neighbors

/-- The neighbour sets of `analyze_canonical_layout_structure`. -/
def contactNeighbors (polygons : List CanonicalPlacedPolygon) : Option (List (Finset ℕ)) :=
  (indexPairs polygons.length).foldlM (addNeighbors F polygons)
    (List.replicate polygons.length ∅)

end Neighbors

/-! ## §2  Components -/

/-- `canonical_grid_absolute_doubled_area` with its check of the coordinates. -/
def checkedAbsoluteDoubledArea (path : CanonicalGridPath) : Option ℤ :=
  if path.length < 3 ∨ (path.all hasSafeCoordinates) = true then
    some (canonicalGridAbsoluteDoubledArea path)
  else none

def sortIds (component : List PieceId) : List PieceId :=
  component.mergeSort fun first second => cmpJsCodeUnits first second != .gt

/-- The search of `contact_components`, each component sorted. -/
def searchComponents (polygons : List CanonicalPlacedPolygon) (neighbors : List (List ℕ)) :
    Option (List (List PieceId)) :=
  (GraphSearch.components (fun current => neighbors.getD current [])
    (fun current => polygons[current]?.map CanonicalPlacedPolygon.pieceId) polygons.length
    (List.range polygons.length)).map (List.map sortIds)

/-- The last entry of an identity counts. -/
def componentDoubledArea (areaEntries : List (PieceId × ℤ)) (component : List PieceId) : ℤ :=
  (component.map fun pieceId => (areaEntries.reverse.lookup pieceId).getD 0).sum

/-- Greater first by size, then by area, then by the identities joined. -/
def compareComponents (areaEntries : List (PieceId × ℤ)) (first second : List PieceId) :
    Ordering :=
  (compare second.length first.length).then
    ((compare (componentDoubledArea areaEntries second)
      (componentDoubledArea areaEntries first)).then
        (localeCompareKeys ("|".intercalate first) ("|".intercalate second)))

/-- `contact_components`, with every neighbour set in the order in which it is listed. -/
def contactComponents (polygons : List CanonicalPlacedPolygon) (neighbors : List (List ℕ)) :
    Option (List (List PieceId)) := do
  let components ← searchComponents polygons neighbors
  let areaEntries ← polygons.mapM fun polygon =>
    (checkedAbsoluteDoubledArea polygon.path).map fun area => (polygon.pieceId, area)
  some (components.mergeSort fun first second =>
    compareComponents areaEntries first second != .gt)

end PolygonNesting
