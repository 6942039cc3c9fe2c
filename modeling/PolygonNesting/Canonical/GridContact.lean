import PolygonNesting.Canonical.GridMath
import PolygonNesting.Lib.StatefulCall

/-!
# Common boundary of grid paths

Two closed paths on the canonical grid are compared edge by edge: edges on one line have
the overlap of their extents along the longer axis.  The sum of the overlaps is measured in
axis units, and only along the axes: a positive overlap of two slanted edges makes the
measurement undecidable.  A measurement asks its checkpoint before every edge and every
pair of edges, and the checkpoint may end it.

A contact of two paths is a positive overlap of any two edges; its length in millimetres
may not be a number, and then there is no answer.
-/

namespace PolygonNesting

open Binary64

/-! ## §1  Edges -/

/-- The number of a grid coordinate. -/
def CanonicalGridPoint.toNumber (point : CanonicalGridPoint) : NumberGridPoint :=
  ⟨Number.ofInt point.x, Number.ofInt point.y⟩

/-- `is_safe_integer` of both coordinates. -/
def hasSafeCoordinates (point : CanonicalGridPoint) : Bool :=
  decide (|point.x| ≤ maxSafeInteger) && decide (|point.y| ≤ maxSafeInteger)

structure CanonicalGridEdge where
  start : CanonicalGridPoint
  finish : CanonicalGridPoint
  startIndex : ℕ
  deriving DecidableEq

/-- Why a measurement ends without a score. -/
inductive BoundaryOverlapStop where
  | undecidable
  | aborted
  deriving DecidableEq

section Edges

variable {M : Type → Type} [Monad M] [MonadExceptOf BoundaryOverlapStop M]

/-- The edge at an index; a coordinate that is no safe integer or a repeated point has
none. -/
def addPathEdge (checked : M Unit) (path : CanonicalGridPath) (edges : List CanonicalGridEdge)
    (index : ℕ) : M (List CanonicalGridEdge) := do
  checked
  let start := path.getD index ⟨0, 0⟩
  let finish := path.getD ((index + 1) % path.length) ⟨0, 0⟩
  if !hasSafeCoordinates start || !hasSafeCoordinates finish ||
      decide (start.x = finish.x ∧ start.y = finish.y) then throw .undecidable
  else pure (edges ++ [⟨start, finish, index⟩])

/-- The edges in order, of three points at least. -/
def canonicalGridPathEdges (checked : M Unit) (path : CanonicalGridPath) :
    M (List CanonicalGridEdge) :=
  if path.length < 3 then throw .undecidable
  else (List.range path.length).foldlM (addPathEdge checked path) []

end Edges

/-! ## §2  The overlap of two edges -/

def gridCrossSign (origin first second : CanonicalGridPoint) : Option ℤ :=
  canonicalGridCrossSign origin.toNumber first.toNumber second.toNumber

/-- `use_x`: the edge goes at least as far along the first axis as along the second. -/
def CanonicalGridEdge.useX (edge : CanonicalGridEdge) : Bool :=
  decide (|edge.finish.y - edge.start.y| ≤ |edge.finish.x - edge.start.x|)

/-- The coordinate of a point along the longer axis of an edge. -/
def CanonicalGridEdge.axisValue (edge : CanonicalGridEdge) (point : CanonicalGridPoint) : ℤ :=
  if edge.useX then point.x else point.y

def canonicalGridCollinearOverlapAxisUnits (first second : CanonicalGridEdge) : Option ℤ := do
  let secondStartCross ← gridCrossSign first.start first.finish second.start
  let secondEndCross ← gridCrossSign first.start first.finish second.finish
  if secondStartCross != 0 || secondEndCross != 0 then some 0
  else
    let firstStart := first.axisValue first.start
    let firstEnd := first.axisValue first.finish
    let secondStart := first.axisValue second.start
    let secondEnd := first.axisValue second.finish
    let overlappingAxisLength := min (max firstStart firstEnd) (max secondStart secondEnd) -
      max (min firstStart firstEnd) (min secondStart secondEnd)
    some (if 0 < overlappingAxisLength then overlappingAxisLength else 0)

/-! ## §3  The measurement -/

inductive CanonicalGridBoundaryOverlapAxisUnitsResult where
  | measured (score : ℤ)
  | undecidable
  | aborted
  deriving DecidableEq

section Measurement

variable {M : Type → Type} [Monad M] [MonadExceptOf BoundaryOverlapStop M]

/-- One pair of edges; a positive overlap has to be along an axis. -/
def addPairOverlap (total : ℤ) (first second : CanonicalGridEdge) : M ℤ :=
  match canonicalGridCollinearOverlapAxisUnits first second with
  | none => throw .undecidable
  | some axisUnits =>
      if 0 < axisUnits ∧ first.finish.x - first.start.x ≠ 0 ∧
          first.finish.y - first.start.y ≠ 0 then throw .undecidable
      else pure (total + axisUnits)

def boundaryOverlapAxisUnits (checked : M Unit) (first second : CanonicalGridPath) : M ℤ := do
  let firstEdges ← canonicalGridPathEdges checked first
  let secondEdges ← canonicalGridPathEdges checked second
  firstEdges.foldlM (fun total firstEdge => do
    checked
    secondEdges.foldlM (fun total secondEdge => do
      checked
      addPairOverlap total firstEdge secondEdge) total) 0

end Measurement

def overlapResult :
    Except BoundaryOverlapStop ℤ → CanonicalGridBoundaryOverlapAxisUnitsResult
  | .ok score => .measured score
  | .error .undecidable => .undecidable
  | .error .aborted => .aborted

/-- The checkpoint by the number of the call; without one nothing is checked. -/
def checkedCall (checkpoint : Option (ℕ → Bool)) :
    ExceptT BoundaryOverlapStop (StateT ℕ Option) Unit :=
  match checkpoint with
  | none => pure ()
  | some callback => do
      let call ← get
      set (call + 1)
      if callback call then pure () else throw .aborted

/-- `none` would be a panic. -/
def measureCanonicalGridBoundaryOverlapAxisUnits (first second : CanonicalGridPath)
    (checkpoint : Option (ℕ → Bool)) :
    Option CanonicalGridBoundaryOverlapAxisUnitsResult :=
  ((boundaryOverlapAxisUnits (checkedCall checkpoint) first second).run 0).map
    fun (result, _) => overlapResult result

/-! ## §4  Contact -/

/-- The edges of a path without a checkpoint. -/
def preparedEdges (path : CanonicalGridPath) : Option (List CanonicalGridEdge) :=
  (canonicalGridPathEdges (M := Except BoundaryOverlapStop) (pure ()) path).toOption

section Contact

variable (F : Type) [LinearOrder F] [Zero F] [One F] [Add F] [Sub F] [Neg F]
  [Mul F] [Div F] [JsMath F]

def canonicalGridEdgeLengthMm (edge : CanonicalGridEdge) : Option F :=
  let dx : F := JsMath.ofInt edge.finish.x - JsMath.ofInt edge.start.x
  let dy : F := JsMath.ofInt edge.finish.y - JsMath.ofInt edge.start.y
  let lengthMm := JsMath.hypot dx dy / JsNumber.ofNat 1000
  if JsNumber.isFinite lengthMm && decide (0 < lengthMm) then some lengthMm else none

/-- The length in millimetres. -/
def canonicalGridCollinearOverlap (first second : CanonicalGridEdge) : Option F := do
  let axisUnits ← canonicalGridCollinearOverlapAxisUnits first second
  if axisUnits ≤ 0 then some 0
  else
    let firstAxisLength := |first.axisValue first.finish - first.axisValue first.start|
    let edgeLengthMm ← canonicalGridEdgeLengthMm F first
    let overlapAxisLength : F := JsMath.ofInt axisUnits
    let axisLength : F := JsMath.ofInt firstAxisLength
    if !isSafeInteger overlapAxisLength || !isSafeInteger axisLength ||
        decide (axisLength ≤ 0) then none
    else
      let lengthMm := overlapAxisLength * edgeLengthMm / axisLength
      if JsNumber.isFinite lengthMm && decide (0 < lengthMm) then some lengthMm else none

/-- The pairs up to the first with a positive length. -/
def hasPositiveContactOfPairs :
    List (CanonicalGridEdge × CanonicalGridEdge) → Option Bool
  | [] => some false
  | (firstEdge, secondEdge) :: rest => do
      let lengthMm ← canonicalGridCollinearOverlap F firstEdge secondEdge
      if 0 < lengthMm then some true else hasPositiveContactOfPairs rest

def hasPositiveContactBetweenPreparedEdges (firstEdges secondEdges : List CanonicalGridEdge) :
    Option Bool :=
  hasPositiveContactOfPairs F (firstEdges.flatMap fun firstEdge =>
    secondEdges.map fun secondEdge => (firstEdge, secondEdge))

def hasPositiveCanonicalGridBoundaryContact (first second : CanonicalGridPath) :
    Option Bool := do
  let firstEdges ← preparedEdges first
  let secondEdges ← preparedEdges second
  hasPositiveContactBetweenPreparedEdges F firstEdges secondEdges

end Contact

end PolygonNesting
