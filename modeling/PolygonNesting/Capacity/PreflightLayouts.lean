import PolygonNesting.Capacity.PreflightGeometry

set_option linter.unusedSectionVars false

/-!
# Legal layouts of prepared pieces

A legal layout places polygons on the canonical grid within the sheet so that no two share
an area; a complete one places a transform of every piece.  The measures of the preflight
bound them: in a complete legal layout every piece fits the sheet, and the least areas of
the pieces add up to at most that of the sheet.
-/

namespace PolygonNesting

variable {K : Type} [Field K] [LinearOrder K] [IsStrictOrderedRing K] [FloorRing K]
  [NumberTexts K] [JsTrig K] {sourceBounds : CollisionGeometry K → IrregularBounds K}

/-! ## §1  The transforms of a piece -/

/-- What the preflight measures of one transform: its grid path, a strict ring. -/
structure TransformPath (points : List (IrregularPoint K)) (path : CanonicalGridPath)
    (w : ConvexPolygonWinding) : Prop where
  eq_map : points = path.map Caches.gridPointMm
  on_grid : gridPathOf points = some path
  safe : ∀ p ∈ path, |p.x| ≤ maxSafeInteger ∧ |p.y| ≤ maxSafeInteger
  strict : IsStrictRing (path.map (Caches.gridPointMm (F := K))) w

omit [JsTrig K] in
theorem rotate_gridPoint (turn : IrregularQuarterTurnDegrees) (p : CanonicalGridPoint) :
    rotateQuarterTurnPoint (Caches.gridPointMm (F := K) p) turn =
      Caches.gridPointMm (turnGrid turn p) := by
  cases turn with
  | zero => rfl
  | ninety =>
    have hneg : -(fromGrid p.y : K) = fromGrid (-p.y) := by
      rw [fromGrid_eq, fromGrid_eq]
      push_cast
      ring
    exact congrArg (IrregularPoint.mk · _) hneg

namespace TransformPath

variable {points : List (IrregularPoint K)} {path : CanonicalGridPath}
  {w : ConvexPolygonWinding}

theorem three_le (h : TransformPath points path w) : 3 ≤ path.length := by
  have hlength := h.strict.length
  rwa [List.length_map] at hlength

end TransformPath

/-! ## §2  Layouts -/

theorem pairwise_of_laterPairs {α : Type} {R : α → α → Prop} :
    ∀ {l : List α}, (∀ pair ∈ laterPairs l, R pair.2 pair.1) → l.Pairwise R := by
  intro l
  induction l with
  | nil => exact fun _ => .nil
  | cons a rest ih =>
      intro h
      refine .cons (fun later hlater => ?_) (ih fun pair hpair => ?_)
      · exact h (later, a) (List.mem_append_left _ (List.mem_map_of_mem hlater))
      · exact h pair (List.mem_append_right _ hpair)

/-- The edges of a closed path by index. -/
theorem canonicalGridSignedDoubledArea_eq {path : CanonicalGridPath} (h : 3 ≤ path.length) :
    canonicalGridSignedDoubledArea path = doubledShoelace path := by
  unfold canonicalGridSignedDoubledArea doubledShoelace
  rw [if_neg (by omega)]
  congr 1
  refine List.ext_getElem ?_ fun k hk _ => ?_
  · simp
    omega
  · have hk' : k < path.length := by
      simp at hk
      omega
    simp only [List.getElem_map, List.getElem_zip, List.getElem_range]
    rw [List.getD_eq_getElem _ _ hk', List.getD_eq_getElem _ _ (Nat.mod_lt _ (by omega)),
      List.getElem_append]
    split
    · next hlt =>
        rw [List.length_tail] at hlt
        simp only [List.getElem_tail, Nat.mod_eq_of_lt (show k + 1 < path.length by omega)]
    · next hge =>
        rw [List.length_tail] at hge
        simp only [show k + 1 = path.length by omega, Nat.mod_self, List.length_tail,
          show k - (path.length - 1) = 0 by omega, List.getElem_take]

omit [JsTrig K] in
/-- The placed pieces and their polygons. -/
theorem polygons_of_placed {placed : List (IrregularPlacedPiece K)}
    {polygons : List CanonicalPlacedPolygon} (h : canonicalPlacedPolygons placed = some polygons) :
    List.Forall₂ (fun entry polygon => placedCollisionWorldGridPath entry = some polygon.path)
      placed polygons := by
  refine (option_mapM_forall₂ h).imp fun entry polygon hentry => ?_
  obtain ⟨path, hpath, hrest⟩ := Option.bind_eq_some_iff.mp hentry
  split at hrest
  · cases hrest
  · rw [hpath, ← Option.some.inj hrest]

/-! ## §3  What the measures bound -/

/-- The measures of one transform of a piece. -/
def MeasuresTransform (sourceBounds : CollisionGeometry K → IrregularBounds K)
    (piece : IrregularPreparedPiece K) (transform : IrregularTransformCandidate K) (area : ℤ)
    (span : TransformedGridSpan) : Prop :=
  ∃ moving, Caches.computeTransformedCollisionGeometry
      (transformInput sourceBounds piece transform) = .ok moving ∧
    exactDoubledPolygonAreaGrid2 moving.polygon.points = some area ∧
    transformedGridSpan moving.polygon.points = some span

/-- Every transform of the piece has measures. -/
def IsMeasured (sourceBounds : CollisionGeometry K → IrregularBounds K)
    (piece : IrregularPreparedPiece K) : Prop :=
  ∀ transform ∈ piece.transforms, ∃ area span,
    MeasuresTransform sourceBounds piece transform area span

/-- Some transform of the piece has extents within those of the sheet. -/
def PieceFits (sourceBounds : CollisionGeometry K → IrregularBounds K) (width height : ℤ)
    (piece : IrregularPreparedPiece K) : Prop :=
  ∃ transform ∈ piece.transforms, ∃ area span,
    MeasuresTransform sourceBounds piece transform area span ∧ spanFits span width height = true

/-- The least area of the transforms of a piece. -/
def IsLeastArea (sourceBounds : CollisionGeometry K → IrregularBounds K)
    (piece : IrregularPreparedPiece K) (area : ℤ) : Prop :=
  IsLeast {a | ∃ transform ∈ piece.transforms, ∃ span,
    MeasuresTransform sourceBounds piece transform a span} area

end PolygonNesting
