import PolygonNesting.Geometry.StrictConvex
import PolygonNesting.Lib.PlaneLattice

set_option linter.unusedSectionVars false

/-!
# The inside of a polygon

The open interior of a polygon, the translates of a polygon, and when two
polygons share a positive area.
-/

open scoped Pointwise

namespace PolygonNesting

open Plane

variable {K : Type} [Field K] [LinearOrder K] [IsStrictOrderedRing K] [FloorRing K]

/-! ## §1  Purpose -/

/-- The interior of the convex hull of the vertices. -/
def openInterior (polygon : IrregularPolygon K) : Set (K × K) :=
  core (convexHull K {q | ∃ p ∈ polygon.points, position p = q})

/-- The open interiors meet: the polygons share a positive area. -/
def sharesPositiveArea (first second : IrregularPolygon K) : Prop :=
  (openInterior first ∩ openInterior second).Nonempty

/-- The inside of an accepted ring is the inside of the polygon. -/
theorem Accepted.openInterior_eq {polygon : IrregularPolygon K} {w : ConvexPolygonWinding}
    (h : Accepted polygon.points w) : openInterior polygon = {q | h.ring.Inner q} := by
  have hset : {q | ∃ p ∈ polygon.points, position p = q} = Set.range h.ring.vertex := by
    ext q
    constructor
    · rintro ⟨p, hp, rfl⟩
      obtain ⟨k, -, rfl⟩ := exists_vertexAt hp
      exact ⟨k, rfl⟩
    · rintro ⟨k, rfl⟩
      exact ⟨_, vertexAt_mem h.length_pos k, rfl⟩
  ext q
  unfold openInterior
  rw [hset]
  exact ConvexRing.mem_core_hull_iff

/-! ## §2  Translated polygons -/

def IrregularPolygon.translate (polygon : IrregularPolygon K) (translation : IrregularPoint K) :
    IrregularPolygon K := ⟨polygon.points.map (translatePoint translation)⟩

theorem IrregularPolygon.eq_of_points {first second : IrregularPolygon K}
    (h : first.points = second.points) : first = second := by
  cases first
  cases second
  exact congrArg IrregularPolygon.mk h

/-- The vertices as plane points. -/
def vertexSet (polygon : IrregularPolygon K) : Set (K × K) :=
  {q | ∃ p ∈ polygon.points, position p = q}

omit [LinearOrder K] [IsStrictOrderedRing K] [FloorRing K] in
theorem position_translatePoint (t p : IrregularPoint K) :
    position (translatePoint t p) = position t + position p := by
  simp only [position, translatePoint, Prod.mk_add_mk, add_comm]

omit [LinearOrder K] [IsStrictOrderedRing K] [FloorRing K] in
theorem vertexSet_translate (polygon : IrregularPolygon K) (t : IrregularPoint K) :
    vertexSet (polygon.translate t) = position t +ᵥ vertexSet polygon := by
  ext q
  simp only [vertexSet, IrregularPolygon.translate, List.mem_map, Set.mem_vadd_set, vadd_eq_add]
  constructor
  · rintro ⟨_, ⟨p, hp, rfl⟩, rfl⟩
    exact ⟨position p, ⟨p, hp, rfl⟩, (position_translatePoint t p).symm⟩
  · rintro ⟨_, ⟨p, hp, rfl⟩, rfl⟩
    exact ⟨_, ⟨p, hp, rfl⟩, position_translatePoint t p⟩

omit [FloorRing K] in
theorem openInterior_eq_core (polygon : IrregularPolygon K) :
    openInterior polygon = core (convexHull K (vertexSet polygon)) := rfl

omit [FloorRing K] in
theorem mem_openInterior_translate {polygon : IrregularPolygon K} {t : IrregularPoint K}
    {q : K × K} :
    q ∈ openInterior (polygon.translate t) ↔ q - position t ∈ openInterior polygon := by
  rw [openInterior_eq_core, vertexSet_translate, convexHull_vadd, mem_core_vadd]
  rfl

omit [FloorRing K] in
/-- **A common translation** changes no overlap. -/
theorem sharesPositiveArea_of_translate {first second : IrregularPolygon K}
    {s t s' t' : IrregularPoint K} (h : position s' - position s = position t' - position t)
    (hshares : sharesPositiveArea (first.translate s') (second.translate t')) :
    sharesPositiveArea (first.translate s) (second.translate t) := by
  obtain ⟨q, hq1, hq2⟩ := hshares
  rw [mem_openInterior_translate] at hq1 hq2
  refine ⟨q - (position s' - position s), mem_openInterior_translate.2 ?_,
    mem_openInterior_translate.2 ?_⟩
  · rwa [show q - (position s' - position s) - position s = q - position s' by abel]
  · rwa [h, show q - (position t' - position t) - position t = q - position t' by abel]

omit [FloorRing K] in
theorem sharesPositiveArea_symm {first second : IrregularPolygon K}
    (h : sharesPositiveArea first second) : sharesPositiveArea second first := by
  obtain ⟨q, h1, h2⟩ := h
  exact ⟨q, h2, h1⟩

end PolygonNesting
