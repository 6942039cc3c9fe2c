import Mathlib.Algebra.Order.Archimedean.Real.Basic
import PolygonNesting.Canonical.GridMath
import PolygonNesting.Geometry.OpenInterior
import PolygonNesting.Geometry.StrictBoundary
import PolygonNesting.Lib.RingArea

set_option linter.unusedSectionVars false

/-!
# Grid paths as polygons

A path on the canonical grid is a polygon of the real plane, in grid units.  A strict ring
stays one under every map that keeps the orientation of its points.
-/

namespace PolygonNesting

open Plane

variable {K : Type} [Field K] [LinearOrder K] [IsStrictOrderedRing K] [FloorRing K]

/-- A grid point of the plane, in grid units. -/
noncomputable def realPoint (point : CanonicalGridPoint) : IrregularPoint ℝ :=
  ⟨point.x, point.y⟩

noncomputable def realPolygon (path : CanonicalGridPath) : IrregularPolygon ℝ :=
  ⟨path.map realPoint⟩

/-- Two grid paths share a positive area. -/
def sharesGridArea (first second : CanonicalGridPath) : Prop :=
  sharesPositiveArea (realPolygon first) (realPolygon second)

theorem vertexAt_map {α F : Type} [Zero F] {points : List α} (h : 0 < points.length) (k : ℕ)
    (f : α → IrregularPoint F) :
    vertexAt (points.map f) k = f (points.get ⟨k % points.length, Nat.mod_lt k h⟩) := by
  unfold vertexAt
  rw [List.length_map, List.getD_eq_getElem _ _ (by simpa using Nat.mod_lt k h),
    List.getElem_map, List.get_eq_getElem]

/-- A ring stays strict under a map that keeps every orientation. -/
theorem IsStrictRing.map_congr {α L : Type} [Field L] [LinearOrder L] [IsStrictOrderedRing L]
    [FloorRing L] {points : List α} {f : α → IrregularPoint K} {g : α → IrregularPoint L}
    {w : ConvexPolygonWinding}
    (horientation : ∀ o a b, orientationOf (f o) (f a) (f b) = orientationOf (g o) (g a) (g b))
    (h : IsStrictRing (points.map f) w) : IsStrictRing (points.map g) w := by
  rw [isStrictRing_iff_onSide, List.length_map] at h ⊢
  obtain ⟨hlength, hw, hside⟩ := h
  refine ⟨hlength, hw, fun i hi j hj hstart hfinish => ?_⟩
  have hpos : 0 < points.length := lt_of_lt_of_le (by norm_num) hlength
  rw [List.length_map] at hi hj hfinish
  have hturn := hside i (by rwa [List.length_map]) j (by rwa [List.length_map]) hstart
    (by rwa [List.length_map])
  rw [vertexAt_map hpos, vertexAt_map hpos, vertexAt_map hpos] at hturn ⊢
  rw [← horientation]
  exact hturn

theorem orientationOf_congr {L : Type} [Field L] [LinearOrder L] [IsStrictOrderedRing L]
    [FloorRing L] {o a b : IrregularPoint K} {o' a' b' : IrregularPoint L}
    (hneg : cross (position o) (position a) (position b) < 0 ↔
      cross (position o') (position a') (position b') < 0)
    (hpos : 0 < cross (position o) (position a) (position b) ↔
      0 < cross (position o') (position a') (position b')) :
    orientationOf o a b = orientationOf o' a' b' := by
  rw [orientationOf_eq, orientationOf_eq]
  simp only [hneg, hpos]

/-- The ring of a strict list. -/
def IsStrictRing.convexRing {points : List (IrregularPoint K)} {w : ConvexPolygonWinding}
    (h : IsStrictRing points w) : ConvexRing K :=
  (accepted_of_validateStrictBoundary h.validate_eq).ring

theorem IsStrictRing.visits {points : List (IrregularPoint ℝ)} {w : ConvexPolygonWinding}
    (h : IsStrictRing points w) : h.convexRing.Visits := fun _ _ heq =>
  (vertexAt_eq_iff h.nodup h.length_pos).mp (position_injective heq)

end PolygonNesting
