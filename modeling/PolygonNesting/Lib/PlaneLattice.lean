import Mathlib.Analysis.Convex.Jensen
import Mathlib.LinearAlgebra.AffineSpace.AffineEquiv
import PolygonNesting.Lib.RingConvexity

/-!
# Translates of a bounded set by a plane lattice

A lattice vector is at least as long as the determinant of the basis over its
Frobenius norm allows, and a translation longer than the diameter of a set
moves its convex hull off itself.  Together: where four squared determinants
exceed squared diameter times squared norm, only the eight neighbouring
translates can meet.
-/

open scoped Pointwise

namespace Plane

variable {K : Type} [Field K] [LinearOrder K] [IsStrictOrderedRing K]

def dot (a b : K × K) : K := a.1 * b.1 + a.2 * b.2

/-- The squared length. -/
def normSq (a : K × K) : K := dot a a

omit [LinearOrder K] [IsStrictOrderedRing K] in
/-- Lagrange's identity in the plane. -/
theorem dot_sq_add_det_sq (a b : K × K) :
    dot a b ^ 2 + det a b ^ 2 = normSq a * normSq b := by
  simp only [normSq, dot, det]
  ring

theorem normSq_nonneg (a : K × K) : 0 ≤ normSq a :=
  add_nonneg (mul_self_nonneg _) (mul_self_nonneg _)

theorem dot_sq_le (a b : K × K) : dot a b ^ 2 ≤ normSq a * normSq b := by
  rw [← dot_sq_add_det_sq]
  exact le_add_of_nonneg_right (sq_nonneg _)

theorem det_sq_le (a b : K × K) : det a b ^ 2 ≤ normSq a * normSq b := by
  rw [← dot_sq_add_det_sq]
  exact le_add_of_nonneg_left (sq_nonneg _)

/-! ## §1  Long translations -/

/-- A linear form on a hull is at most its value at some point of the set. -/
theorem exists_dot_ge {s : Set (K × K)} (d : K × K) {x : K × K} (hx : x ∈ convexHull K s) :
    ∃ w ∈ s, dot d x ≤ dot d w := by
  have hconvex : ConvexOn K (convexHull K s) (dot d) := by
    refine ⟨convex_convexHull K s, ?_⟩
    intro p _ q _ a b _ _ _
    refine le_of_eq ?_
    simp only [dot, Prod.fst_add, Prod.snd_add, Prod.smul_fst, Prod.smul_snd, smul_eq_mul]
    ring
  exact hconvex.exists_ge_of_mem_convexHull (subset_convexHull K s) hx

/-- The diameter of a hull is that of the set. -/
theorem normSq_sub_le {s : Set (K × K)} {D : K}
    (hD : ∀ w ∈ s, ∀ w' ∈ s, normSq (w - w') ≤ D) {x y : K × K}
    (hx : x ∈ convexHull K s) (hy : y ∈ convexHull K s) : normSq (x - y) ≤ D := by
  obtain ⟨w, hw, hxw⟩ := exists_dot_ge (x - y) hx
  obtain ⟨w', hw', hyw⟩ := exists_dot_ge (y - x) hy
  have hle : normSq (x - y) ≤ dot (x - y) (w - w') := by
    simp only [normSq, dot, Prod.fst_sub, Prod.snd_sub] at hxw hyw ⊢
    linarith
  by_contra hlt
  push Not at hlt
  have hpos : 0 < normSq (x - y) :=
    ((normSq_nonneg (w - w)).trans (hD w hw w hw)).trans_lt hlt
  -- Cauchy–Schwarz against the pair of points that realises the spread
  have hsq : normSq (x - y) ^ 2 ≤ normSq (x - y) * normSq (w - w') :=
    (pow_le_pow_left₀ hpos.le hle 2).trans (dot_sq_le _ _)
  rw [sq] at hsq
  exact absurd ((le_of_mul_le_mul_left hsq hpos).trans (hD w hw w' hw')) (not_le.2 hlt)

/-- **A translation longer than the diameter** moves a hull off itself. -/
theorem not_mem_translate {s : Set (K × K)} {D : K}
    (hD : ∀ w ∈ s, ∀ w' ∈ s, normSq (w - w') ≤ D) {u v : K × K} (hlong : D < normSq (u - v)) :
    ∀ q ∈ u +ᵥ convexHull K s, q ∉ v +ᵥ convexHull K s := by
  rintro _ ⟨x, hx, rfl⟩ ⟨y, hy, hxy⟩
  have hdiff : y - x = u - v := by
    have : v + y = u + x := hxy
    rw [sub_eq_sub_iff_add_eq_add, add_comm y v, this]
  exact absurd (hdiff ▸ normSq_sub_le hD hy hx) (not_le.2 hlong)

/-! ## §2  Lattice vectors -/

def latticeVector (v w : K × K) (i j : ℤ) : K × K := (i : K) • v + (j : K) • w

omit [LinearOrder K] [IsStrictOrderedRing K] in
theorem latticeVector_sub (v w : K × K) (i j i' j' : ℤ) :
    latticeVector v w i j - latticeVector v w i' j' = latticeVector v w (i - i') (j - j') := by
  unfold latticeVector
  push_cast
  module

/-- The coefficients are bounded by the length: each is a determinant with a basis vector. -/
theorem sq_mul_det_sq_le (v w : K × K) (i j : ℤ) :
    ((i : K) ^ 2 + (j : K) ^ 2) * det v w ^ 2 ≤
      normSq (latticeVector v w i j) * (normSq v + normSq w) := by
  have hi : det (latticeVector v w i j) w = i * det v w := by
    simp only [latticeVector, det, Prod.fst_add, Prod.snd_add, Prod.smul_fst, Prod.smul_snd,
      smul_eq_mul]
    ring
  have hj : det (latticeVector v w i j) v = -(j * det v w) := by
    simp only [latticeVector, det, Prod.fst_add, Prod.snd_add, Prod.smul_fst, Prod.smul_snd,
      smul_eq_mul]
    ring
  have h1 := det_sq_le (latticeVector v w i j) w
  have h2 := det_sq_le (latticeVector v w i j) v
  rw [hi, mul_pow] at h1
  rw [hj, neg_sq, mul_pow] at h2
  linarith

/-- **The far-neighbour bound.** -/
theorem lt_normSq_latticeVector {v w : K × K} {D : K}
    (hfar : D * (normSq v + normSq w) < 4 * det v w ^ 2) {i j : ℤ} (hij : 4 ≤ i ^ 2 + j ^ 2) :
    D < normSq (latticeVector v w i j) := by
  have hbound := sq_mul_det_sq_le v w i j
  have hfour : (4 : K) ≤ (i : K) ^ 2 + (j : K) ^ 2 := by exact_mod_cast hij
  have hle : 4 * det v w ^ 2 ≤ ((i : K) ^ 2 + (j : K) ^ 2) * det v w ^ 2 :=
    mul_le_mul_of_nonneg_right hfour (sq_nonneg _)
  exact lt_of_mul_lt_mul_right (hfar.trans_le (hle.trans hbound))
    (add_nonneg (normSq_nonneg v) (normSq_nonneg w))

/-- The other coefficients are those of the eight neighbours. -/
theorem neighbour_of_sq_lt_four {i j : ℤ} (h : i ^ 2 + j ^ 2 < 4) : |i| ≤ 1 ∧ |j| ≤ 1 := by
  constructor
  · by_contra hi
    push Not at hi
    have : 2 ^ 2 ≤ |i| ^ 2 := pow_le_pow_left₀ (by decide) hi 2
    rw [sq_abs] at this
    nlinarith [sq_nonneg j]
  · by_contra hj
    push Not at hj
    have : 2 ^ 2 ≤ |j| ^ 2 := pow_le_pow_left₀ (by decide) hj 2
    rw [sq_abs] at this
    nlinarith [sq_nonneg i]

/-! ## §3  Interiors of translates -/

omit [IsStrictOrderedRing K] in
theorem mem_core_vadd {s : Set (K × K)} {u q : K × K} :
    q ∈ core (u +ᵥ s) ↔ q - u ∈ core s := by
  refine forall_congr' fun d => exists_congr fun t => and_congr_right fun _ => ?_
  rw [Set.mem_vadd_set_iff_neg_vadd_mem, vadd_eq_add, neg_add_eq_sub, add_sub_right_comm]

omit [IsStrictOrderedRing K] in
theorem core_subset (s : Set (K × K)) : core s ⊆ s := by
  intro q hq
  obtain ⟨t, _, ht⟩ := hq 0
  rwa [smul_zero, add_zero] at ht

end Plane
