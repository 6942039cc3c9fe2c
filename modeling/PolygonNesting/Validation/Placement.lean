import Mathlib.Data.Rat.Floor
import PolygonNesting.Validation.SpatialIndex

/-!
# Placement assessment

One candidate placement against the pieces already placed: translate and
validate the moving ring, collect the placed rings (through the spatial index
when it matches the list, directly otherwise), check the sheet, and test every
placed ring for positive-area overlap.

The overlap test is a cascade of seven stages.  Its exact meaning in exact
arithmetic is the subject of the modules after this one; here it is enough
that disjoint bounds answer at once, which makes the index invisible.
-/

namespace PolygonNesting

variable {F : Type} [LinearOrder F] [Zero F] [One F] [Add F] [Sub F] [Neg F]
  [Mul F] [Div F] [JsNumber F] {heap : ℕ → IrregularPlacedPiece F}

structure IrregularGeometryInputError where
  operation : String
  message : String
  deriving DecidableEq

structure PlacementAssessment where
  legal : Bool
  message : String
  deriving DecidableEq

inductive AssessPlacementOutcome where
  | assessment (assessment : PlacementAssessment)
  | failure (error : IrregularGeometryInputError)
  deriving DecidableEq

structure AssessPlacementInput (heap : ℕ → IrregularPlacedPiece F) where
  sheet : Option (SheetSpec F)
  placed : List (PlacedArc heap)
  placedCollisionIndex : Option (PlacedCollisionSpatialIndex heap)
  moving : TransformedCollisionGeometry F
  candidatePoint : IrregularPoint F

structure ValidatedPolygonWithBounds (F : Type) where
  polygon : IrregularPolygon F
  bounds : IrregularBounds F
  winding : ConvexPolygonWinding
  deriving DecidableEq

/-! ## §1  The seven stages -/

def polygonEdges (polygon : IrregularPolygon F) : List (BoundaryEdge F) :=
  boundaryEdges polygon.points

def isStrictlyInside (point : IrregularPoint F) (polygon : IrregularPolygon F)
    (winding : ConvexPolygonWinding) : Bool :=
  (polygonEdges polygon).all fun edge =>
    let turn := orientationOf edge.start edge.finish point
    !(turn == 0 || turn != winding)

def isOnBoundary (point : IrregularPoint F) (polygon : IrregularPolygon F) :
    Bool :=
  (polygonEdges polygon).any fun edge =>
    orientationOf edge.start edge.finish point == 0 && pointIsOnSegment point edge

/-- One pair of edges crosses at an inner point of both. -/
def edgesCrossProperly (firstEdge secondEdge : BoundaryEdge F) : Bool :=
  let firstStartTurn :=
    orientationOf firstEdge.start firstEdge.finish secondEdge.start
  let firstEndTurn :=
    orientationOf firstEdge.start firstEdge.finish secondEdge.finish
  let secondStartTurn :=
    orientationOf secondEdge.start secondEdge.finish firstEdge.start
  let secondEndTurn :=
    orientationOf secondEdge.start secondEdge.finish firstEdge.finish
  !(firstStartTurn == 0 || firstEndTurn == 0 || secondStartTurn == 0 ||
      secondEndTurn == 0) &&
    firstStartTurn != firstEndTurn && secondStartTurn != secondEndTurn

def boundariesHaveProperCrossing (first second : IrregularPolygon F) : Bool :=
  (polygonEdges first).any fun firstEdge =>
    (polygonEdges second).any fun secondEdge =>
      edgesCrossProperly firstEdge secondEdge

def interiorPointMessage : String :=
  "polygon interior-point arithmetic must produce finite coordinates."

/-- Add one weighted vertex to the running average. -/
def accumulateInteriorPoint (weight : F) (sum point : IrregularPoint F) :
    Except String (IrregularPoint F) :=
  let weighted : IrregularPoint F := ⟨point.x * weight, point.y * weight⟩
  if !isFinitePoint weighted then .error interiorPointMessage
  else
    let sum : IrregularPoint F := ⟨sum.x + weighted.x, sum.y + weighted.y⟩
    if !isFinitePoint sum then .error interiorPointMessage else .ok sum

/-- The equal-weight vertex average. -/
def strictConvexInteriorPoint (polygon : IrregularPolygon F) :
    Except String (IrregularPoint F) :=
  let weight : F := 1 / JsNumber.ofNat polygon.points.length
  if !JsNumber.isFinite weight then .error interiorPointMessage
  else polygon.points.foldlM (accumulateInteriorPoint weight) ⟨0, 0⟩

def segmentsHavePositiveLengthOverlap (first second : BoundaryEdge F) : Bool :=
  let useX := decide (absolute (first.finish.y - first.start.y) ≤
    absolute (first.finish.x - first.start.x))
  let coordinate (point : IrregularPoint F) := if useX then point.x else point.y
  let firstStart := coordinate first.start
  let firstEnd := coordinate first.finish
  let secondStart := coordinate second.start
  let secondEnd := coordinate second.finish
  decide (max (min firstStart firstEnd) (min secondStart secondEnd) <
    min (max firstStart firstEnd) (max secondStart secondEnd))

def interiorSideMessage : String :=
  "polygon interior side arithmetic must produce a finite classification."

/-- The two edges are collinear and share a segment. -/
def edgesOverlapCollinearly (firstEdge secondEdge : BoundaryEdge F) : Bool :=
  !(orientationOf firstEdge.start firstEdge.finish secondEdge.start != 0 ||
      orientationOf firstEdge.start firstEdge.finish secondEdge.finish != 0) &&
    segmentsHavePositiveLengthOverlap firstEdge secondEdge

/-- The first pair of edges that overlaps with the second ring on the inner
side of the first, over all pairs in source order. -/
def collinearOverlapFrom (second : IrregularPolygon F)
    (firstWinding : ConvexPolygonWinding) :
    List (BoundaryEdge F × BoundaryEdge F) → Except String Bool
  | [] => .ok false
  | (firstEdge, secondEdge) :: rest =>
      if !edgesOverlapCollinearly firstEdge secondEdge then
        collinearOverlapFrom second firstWinding rest
      else
        match second.points.find? fun point =>
            orientationOf firstEdge.start firstEdge.finish point != 0 with
        | none => .error interiorSideMessage
        | some point =>
            if orientationOf firstEdge.start firstEdge.finish point =
                firstWinding then .ok true
            else collinearOverlapFrom second firstWinding rest

def boundariesHavePositiveCollinearOverlap (first second : IrregularPolygon F)
    (firstWinding : ConvexPolygonWinding) : Except String Bool :=
  collinearOverlapFrom second firstWinding
    ((polygonEdges first).flatMap fun firstEdge =>
      (polygonEdges second).map fun secondEdge => (firstEdge, secondEdge))

def polygonsHavePositiveAreaOverlap (first second : ValidatedPolygonWithBounds F) :
    Except String Bool :=
  -- (1) bounds
  if areDisjoint first.bounds second.bounds then .ok false
  -- (2), (3) a vertex of one strictly inside the other
  else if first.polygon.points.any fun point =>
      isStrictlyInside point second.polygon second.winding then .ok true
  else if second.polygon.points.any fun point =>
      isStrictlyInside point first.polygon first.winding then .ok true
  -- (4) a proper crossing
  else if boundariesHaveProperCrossing first.polygon second.polygon then .ok true
  else
    match strictConvexInteriorPoint first.polygon,
        strictConvexInteriorPoint second.polygon with
    | .error message, _ => .error message
    | .ok _, .error message => .error message
    | .ok firstInteriorPoint, .ok secondInteriorPoint =>
        -- (5) a vertex average strictly inside the other
        if isStrictlyInside firstInteriorPoint second.polygon second.winding ||
            isStrictlyInside secondInteriorPoint first.polygon first.winding then
          .ok true
        else
          -- (6) edges overlapping on the same side
          match boundariesHavePositiveCollinearOverlap first.polygon
              second.polygon first.winding with
          | .error message => .error message
          | .ok true => .ok true
          | .ok false =>
              -- (7) coincident rings
              .ok ((first.polygon.points.all fun point =>
                  isOnBoundary point second.polygon) &&
                second.polygon.points.all fun point =>
                  isOnBoundary point first.polygon)

/-! ## §2  The assessment -/

def translateAndValidatePolygon (polygon : IrregularPolygon F)
    (translation : IrregularPoint F) (label : String) :
    Except String (ValidatedPolygonWithBounds F) :=
  match translatePolygonWithBounds polygon translation with
  | none => .error
      (label ++ " translation must produce finite polygon coordinates.")
  | some translated =>
      match validateStrictBoundary translated.polygon.points with
      | .invalid message => .error message
      | .valid winding => .ok ⟨translated.polygon, translated.bounds, winding⟩

def isInsideSheet (points : List (IrregularPoint F)) (sheetWidth sheetHeight : F) :
    Bool :=
  points.all fun point =>
    decide (0 ≤ point.x) && decide (point.x ≤ sheetWidth) &&
      decide (0 ≤ point.y) && decide (point.y ≤ sheetHeight)

def invalidGeometryFailure (message : String) : AssessPlacementOutcome :=
  .failure ⟨"validatePlacement", message⟩

/-- The placed ring of an index entry. -/
def entryPolygon (entry : PlacedCollisionSpatialEntry heap) :
    Except String (ValidatedPolygonWithBounds F) :=
  match entry.validation with
  | .invalid message => .error message
  | .valid polygon => .ok ⟨polygon.polygonWithBounds.polygon,
      polygon.polygonWithBounds.bounds, polygon.winding⟩

/-- The placed ring of a placed piece. -/
def placedPolygon (placed : PlacedArc heap) :
    Except String (ValidatedPolygonWithBounds F) :=
  translateAndValidatePolygon placed.piece.collisionGeometry.polygon
    (placedTranslation placed.piece) "placed"

/-- The placed rings, in order, up to the first failure. -/
def placedPolygons (input : AssessPlacementInput heap)
    (movingBounds : IrregularBounds F) :
    Except String (List (ValidatedPolygonWithBounds F)) :=
  match input.placedCollisionIndex.filter fun index =>
      index.matches input.placed with
  | some index => (index.query (some movingBounds)).mapM entryPolygon
  | none => input.placed.mapM placedPolygon

/-- The overlap loop: the first failure or the first overlap ends it. -/
def assessOverlaps (moving : ValidatedPolygonWithBounds F) :
    List (ValidatedPolygonWithBounds F) → AssessPlacementOutcome
  | [] => .assessment ⟨true, ""⟩
  | placed :: rest =>
      match polygonsHavePositiveAreaOverlap moving placed with
      | .error message => invalidGeometryFailure message
      | .ok true => .assessment ⟨false,
          "moving polygon has positive-area overlap with placed collision geometry."⟩
      | .ok false => assessOverlaps moving rest

def assessPlacement (input : AssessPlacementInput heap)
    (enforceSheetBounds : Bool) : AssessPlacementOutcome :=
  match translateAndValidatePolygon input.moving.polygon input.candidatePoint
      "moving" with
  | .error message => invalidGeometryFailure message
  | .ok moving =>
      match placedPolygons input moving.bounds with
      | .error message => invalidGeometryFailure message
      | .ok placed =>
          let outside := match enforceSheetBounds, input.sheet with
            | true, some sheet =>
                !isInsideSheet moving.polygon.points sheet.width sheet.height
            | _, _ => false
          if outside then
            .assessment ⟨false, "moving polygon must remain inside the sheet."⟩
          else assessOverlaps moving placed

/-- `check` with the sheet enforced, `checkSheetless` without. -/
def checkPlacement (input : AssessPlacementInput heap)
    (enforceSheetBounds : Bool) : Except IrregularGeometryInputError Bool :=
  match assessPlacement input enforceSheetBounds with
  | .assessment assessment => .ok assessment.legal
  | .failure error => .error error

/-! ## §3  A matching index changes nothing -/

theorem overlap_of_disjoint {first second : ValidatedPolygonWithBounds F}
    (h : areDisjoint first.bounds second.bounds = true) :
    polygonsHavePositiveAreaOverlap first second = .ok false := by
  rw [polygonsHavePositiveAreaOverlap, if_pos h]

omit [Zero F] [One F] [Add F] [Sub F] [Neg F] [Mul F] [Div F] [JsNumber F] in
theorem areDisjoint_comm (first second : IrregularBounds F) :
    areDisjoint first second = areDisjoint second first := by
  unfold areDisjoint
  rw [Bool.or_comm (decide (first.maxX < second.minX)), Bool.or_assoc,
    Bool.or_comm (decide (first.maxY < second.minY)), ← Bool.or_assoc]

omit [Sub F] [Mul F] in
/-- An entry carries what the direct path computes for its piece. -/
theorem entryPolygon_makeEntry (placed : PlacedArc heap) (ordinal : ℕ) :
    entryPolygon (makeEntry placed ordinal) = placedPolygon placed := by
  simp only [entryPolygon, placedPolygon, translateAndValidatePolygon, makeEntry]
  cases translatePolygonWithBounds placed.piece.collisionGeometry.polygon
      (placedTranslation placed.piece) with
  | none => rfl
  | some translated =>
      dsimp only
      cases validateStrictBoundary translated.polygon.points <;> rfl

omit [Sub F] [Mul F] in
theorem mapM_entryPolygon_makeEntries (placed : List (PlacedArc heap)) :
    (makeEntries placed).mapM entryPolygon = placed.mapM placedPolygon := by
  have h : ∀ (placed : List (PlacedArc heap)) (n : ℕ),
      (placed.mapIdx fun ordinal arc => makeEntry arc (ordinal + n)).mapM
        entryPolygon = placed.mapM placedPolygon := by
    intro placed
    induction placed with
    | nil => intro n; rfl
    | cons arc rest ih =>
        intro n
        have hrest := ih (n + 1)
        simp only [List.mapIdx_cons, List.mapM_cons, entryPolygon_makeEntry,
          Nat.add_assoc, Nat.add_comm 1 n]
        rw [hrest]
  exact h placed 0

omit [Zero F] [One F] [Add F] [Sub F] [Neg F] [Mul F] [Div F] [JsNumber F] in
/-- The filter of a query keeps every entry that fails, and drops only rings
disjoint from the query bounds. -/
theorem entryPolygon_of_not_meets {bounds : IrregularBounds F}
    {e : PlacedCollisionSpatialEntry heap}
    (h : PlacedCollisionSpatialIndex.meets (some bounds) e = false) :
    ∃ polygon, entryPolygon e = .ok polygon ∧
      areDisjoint bounds polygon.bounds = true := by
  unfold PlacedCollisionSpatialIndex.meets at h
  unfold entryPolygon
  cases hv : e.validation with
  | invalid message => simp [hv] at h
  | valid polygon =>
      refine ⟨_, rfl, ?_⟩
      rw [areDisjoint_comm]
      simpa [hv] using h

/-- **Filtering the entries by the moving bounds changes no outcome**: the
first failure stays the first, and a dropped ring overlaps nothing. -/
theorem assessOverlaps_filter_meets (moving : ValidatedPolygonWithBounds F) :
    ∀ entries : List (PlacedCollisionSpatialEntry heap),
      match entries.mapM entryPolygon with
      | .error message =>
          (entries.filter (PlacedCollisionSpatialIndex.meets
            (some moving.bounds))).mapM entryPolygon = .error message
      | .ok all => ∃ kept,
          (entries.filter (PlacedCollisionSpatialIndex.meets
            (some moving.bounds))).mapM entryPolygon = .ok kept ∧
          assessOverlaps moving kept = assessOverlaps moving all := by
  intro entries
  induction entries with
  | nil => exact ⟨[], rfl, rfl⟩
  | cons e rest ih =>
      rw [List.mapM_cons]
      cases hm : PlacedCollisionSpatialIndex.meets (some moving.bounds) e with
      | false =>
          rw [List.filter_cons_of_neg (by simp [hm])]
          obtain ⟨polygon, he, hdisjoint⟩ := entryPolygon_of_not_meets hm
          rw [he]
          cases hrest : rest.mapM entryPolygon with
          | error message =>
              rw [hrest] at ih
              exact ih
          | ok all =>
              rw [hrest] at ih
              obtain ⟨kept, hkept, hsame⟩ := ih
              refine ⟨kept, hkept, ?_⟩
              rw [hsame, assessOverlaps, overlap_of_disjoint hdisjoint]
      | true =>
          rw [List.filter_cons_of_pos hm, List.mapM_cons]
          cases he : entryPolygon e with
          | error message => rfl
          | ok polygon =>
              cases hrest : rest.mapM entryPolygon with
              | error message =>
                  rw [hrest] at ih
                  dsimp only at ih
                  rw [ih]
                  rfl
              | ok all =>
                  rw [hrest] at ih
                  obtain ⟨kept, hkept, hsame⟩ := ih
                  rw [hkept]
                  refine ⟨polygon :: kept, rfl, ?_⟩
                  rw [assessOverlaps, assessOverlaps, hsame]

omit [Sub F] [Mul F] in
/-- An index that matches a list was built over that list. -/
theorem eq_of_matches {index : PlacedCollisionSpatialIndex heap}
    {placed given : List (PlacedArc heap)}
    (hentries : index.entries = makeEntries placed)
    (h : index.matches given = true) : given = placed := by
  simp only [PlacedCollisionSpatialIndex.matches, hentries, Bool.and_eq_true,
    beq_iff_eq, length_makeEntries, List.all_eq_true, decide_eq_true_eq] at h
  obtain ⟨hlength, hsame⟩ := h
  refine List.ext_getElem hlength fun i hi hj => ?_
  have hmem : (given[i], makeEntry placed[i] i) ∈ given.zip (makeEntries placed) := by
    refine List.mem_iff_getElem.mpr ⟨i, ?_, ?_⟩
    · simp [length_makeEntries, hi, hj]
    · simp [makeEntries]
  have haddress := hsame _ hmem
  cases hg : given[i]
  cases hp : placed[i]
  simpa [hg, hp, makeEntry] using haddress

/-- **A filed index that matches the placed list changes no assessment.** -/
theorem Filed.assessPlacement_eq {index : PlacedCollisionSpatialIndex heap}
    {placed : List (PlacedArc heap)} (hfiled : Filed index placed)
    (hfloor : FloorMonotone index.cellSizeMm) (input : AssessPlacementInput heap)
    (hindex : input.placedCollisionIndex = some index)
    (hmatches : index.matches input.placed = true) (enforceSheetBounds : Bool) :
    assessPlacement input enforceSheetBounds =
      assessPlacement { input with placedCollisionIndex := none }
        enforceSheetBounds := by
  have hplaced := eq_of_matches hfiled.entries hmatches
  unfold assessPlacement
  cases translateAndValidatePolygon input.moving.polygon input.candidatePoint
      "moving" with
  | error message => rfl
  | ok moving =>
      have hwith : placedPolygons input moving.bounds =
          ((makeEntries placed).filter (PlacedCollisionSpatialIndex.meets
            (some moving.bounds))).mapM entryPolygon := by
        simp only [placedPolygons, hindex, Option.filter, hmatches, if_true]
        rw [hfiled.query_eq hfloor]
      have hwithout : placedPolygons
          { input with placedCollisionIndex := none } moving.bounds =
          (makeEntries placed).mapM entryPolygon := by
        rw [mapM_entryPolygon_makeEntries, ← hplaced]
        rfl
      dsimp only
      rw [hwith, hwithout]
      have hsame := assessOverlaps_filter_meets moving (makeEntries placed)
      cases hall : (makeEntries placed).mapM entryPolygon with
      | error message =>
          rw [hall] at hsame
          dsimp only at hsame
          rw [hsame]
      | ok all =>
          rw [hall] at hsame
          obtain ⟨kept, hkept, hoverlaps⟩ := hsame
          rw [hkept]
          dsimp only
          rw [hoverlaps]

/-! ## §4  The index is exact -/

omit [Sub F] [Mul F] in
theorem cellSizeMm_foldl_add : ∀ (placed : List (PlacedArc heap))
    (index : PlacedCollisionSpatialIndex heap),
    (placed.foldl PlacedCollisionSpatialIndex.add index).cellSizeMm =
      index.cellSizeMm
  | [], _ => rfl
  | arc :: placed, index => by
      rw [List.foldl_cons, cellSizeMm_foldl_add placed]
      unfold PlacedCollisionSpatialIndex.add
      dsimp only
      split <;> rfl

omit [Zero F] [One F] [Add F] [Sub F] [Neg F] [Mul F] [Div F] [JsNumber F] in
/-- The filter of a query, in words: an entry without bounds passes, and one
with bounds passes when they are not disjoint from the query bounds. -/
theorem meets_iff {bounds : Option (IrregularBounds F)}
    {e : PlacedCollisionSpatialEntry heap} :
    PlacedCollisionSpatialIndex.meets bounds e = true ↔
      ∀ a b, e.validation.bounds = some a → bounds = some b →
        areDisjoint a b = false := by
  cases hv : e.validation <;> cases bounds <;>
    simp [PlacedCollisionSpatialIndex.meets, PlacedCollisionValidation.bounds, hv]

/-- **The spatial index is exact.** Whatever is added, in whatever order, a
query returns the entries of the added pieces that have no bounds or bounds not
disjoint from the query's, each once and in insertion order; and an assessment
with a matching index is the assessment without one. -/
theorem placedCollisionSpatialIndex_exact (placed : List (PlacedArc heap))
    (cellSizeMm : Option F)
    (hfloor : FloorMonotone (validCellSize
      (cellSizeMm.getD defaultPlacedCollisionGridCellSizeMm))) :
    (∀ bounds, (makePlacedCollisionSpatialIndex placed cellSizeMm).query bounds =
      (makeEntries placed).filter (PlacedCollisionSpatialIndex.meets bounds)) ∧
    (∀ bounds e,
      e ∈ (makePlacedCollisionSpatialIndex placed cellSizeMm).query bounds ↔
        e ∈ makeEntries placed ∧
          ∀ a b, e.validation.bounds = some a → bounds = some b →
            areDisjoint a b = false) ∧
    (∀ bounds,
      ((makePlacedCollisionSpatialIndex placed cellSizeMm).query bounds).Pairwise
        fun a b => a.ordinal < b.ordinal) ∧
    ∀ (input : AssessPlacementInput heap) (enforceSheetBounds : Bool),
      input.placedCollisionIndex =
        some (makePlacedCollisionSpatialIndex placed cellSizeMm) →
      (makePlacedCollisionSpatialIndex placed cellSizeMm).matches
        input.placed = true →
      assessPlacement input enforceSheetBounds =
        assessPlacement { input with placedCollisionIndex := none }
          enforceSheetBounds := by
  have hfiled := filed_makePlacedCollisionSpatialIndex placed cellSizeMm
  have hfloor' : FloorMonotone
      (makePlacedCollisionSpatialIndex placed cellSizeMm).cellSizeMm := by
    unfold makePlacedCollisionSpatialIndex
    rw [cellSizeMm_foldl_add]
    exact hfloor
  refine ⟨fun bounds => hfiled.query_eq hfloor' bounds, ?_, ?_, ?_⟩
  · intro bounds e
    rw [hfiled.query_eq hfloor' bounds, List.mem_filter, meets_iff]
  · intro bounds
    rw [hfiled.query_eq hfloor' bounds]
    exact (makeEntries_pairwise placed).filter _
  · intro input enforceSheetBounds hindex hmatches
    exact hfiled.assessPlacement_eq hfloor' input hindex hmatches
      enforceSheetBounds

/-- In exact arithmetic every cell size the index accepts is positive, and
rounding down is monotone. -/
theorem floorMonotone_validCellSize {K : Type} [Field K] [LinearOrder K]
    [IsStrictOrderedRing K] [FloorRing K] (cellSizeMm : K) :
    FloorMonotone (validCellSize cellSizeMm) := by
  have hpos : 0 < validCellSize cellSizeMm := by
    unfold validCellSize
    split
    · next h => exact of_decide_eq_true (Bool.and_eq_true _ _ ▸ h).2
    · show (0 : K) < ((64 : ℕ) : K)
      norm_num
  intro a b i j hab hi hj
  obtain rfl : ⌊a / validCellSize cellSizeMm⌋ = i := Option.some.inj hi
  obtain rfl : ⌊b / validCellSize cellSizeMm⌋ = j := Option.some.inj hj
  exact Int.floor_le_floor (div_le_div_of_nonneg_right hab hpos.le)

/-- A unit square placed at `(left, 0)`. -/
def squarePlacedAt (left : ℚ) : IrregularPlacedPiece ℚ where
  placement := ⟨none, "square", none, ⟨left, 0, 0, false⟩⟩
  collisionGeometry := ⟨"square", ⟨0, 0, false, .orthogonal⟩,
    ⟨[⟨0, 0⟩, ⟨1, 0⟩, ⟨1, 1⟩, ⟨0, 1⟩]⟩, ⟨0, 0, 1, 1⟩⟩

/-- The square at address `n` stands at `(5 n, 0)`. -/
def rowOfSquares (n : ℕ) : IrregularPlacedPiece ℚ := squarePlacedAt (5 * n)

def twoSquares : List (PlacedArc rowOfSquares) := [⟨0⟩, ⟨1⟩]

/-- A third square set down at `(left, 0)` next to the two. -/
def thirdSquare (left : ℚ) : AssessPlacementInput rowOfSquares where
  sheet := some ⟨10, 10, "sheet"⟩
  placed := twoSquares
  placedCollisionIndex := some (makePlacedCollisionSpatialIndex twoSquares (some 2))
  moving := (squarePlacedAt 0).collisionGeometry
  candidatePoint := ⟨left, 0⟩

theorem placedCollisionSpatialIndex_exact_twoSquares :
    (makePlacedCollisionSpatialIndex twoSquares (some 2)).query
        (some ⟨3, 0, 5, 1⟩) = [makeEntry ⟨1⟩ 1] ∧
      assessPlacement (thirdSquare 3) true =
        assessPlacement { thirdSquare 3 with placedCollisionIndex := none } true ∧
      assessPlacement (thirdSquare 3) true = .assessment ⟨true, ""⟩ := by
  have h := placedCollisionSpatialIndex_exact twoSquares (some 2)
    (floorMonotone_validCellSize _)
  refine ⟨(h.1 _).trans ?_, h.2.2.2 (thirdSquare 3) true rfl ?_, ?_⟩ <;>
    decide +kernel

end PolygonNesting
