import Mathlib.Analysis.Convex.Segment
import Mathlib.Analysis.Normed.Affine.AddTorsor
import Mathlib.Topology.MetricSpace.Isometry
import PolygonNesting.Lib.ConvexRing

/-!
# The common part of two segments

On one line the common part of two segments is the segment between the greater of their
lower ends and the lesser of their upper ends; its length is the difference of the two, or
nothing.  Segments that are not on one line have at most a point in common.  Edges of two
convex rings with insides that do not meet go opposite ways along a common part.
-/

namespace SegmentOverlap

variable {E : Type} [NormedAddCommGroup E] [NormedSpace ℝ E]

/-- The length of the common part of two intervals of the real line, given by their ends
in any order. -/
def overlap {R : Type} [LinearOrder R] [Sub R] [Zero R] (a b c d : R) : R :=
  max (min (max a b) (max c d) - max (min a b) (min c d)) 0

theorem diam_uIcc_inter_uIcc (a b c d : ℝ) :
    Metric.diam (Set.uIcc a b ∩ Set.uIcc c d) = overlap a b c d := by
  have hinter : Set.uIcc a b ∩ Set.uIcc c d =
      Set.Icc (max (min a b) (min c d)) (min (max a b) (max c d)) := by
    unfold Set.uIcc
    rw [Set.Icc_inter_Icc]
  rw [hinter]
  unfold overlap
  rcases le_or_gt (max (min a b) (min c d)) (min (max a b) (max c d)) with h | h
  · rw [Real.diam_Icc h, max_eq_left (sub_nonneg.mpr h)]
  · rw [Set.Icc_eq_empty (not_le.mpr h), Metric.diam_empty, max_eq_right (sub_nonpos.mpr h.le)]

/-- **The length of the common part of two segments of one line**, by the coordinate of
their ends along it. -/
theorem diam_segment_inter (line : ℝ →ᵃ[ℝ] E) (hline : Isometry line) (a b c d : ℝ) :
    Metric.diam (segment ℝ (line a) (line b) ∩ segment ℝ (line c) (line d)) =
      overlap a b c d := by
  rw [← image_segment, ← image_segment, ← Set.image_inter hline.injective,
    hline.diam_image, segment_eq_uIcc, segment_eq_uIcc, diam_uIcc_inter_uIcc]

/-- An affine function that is zero at two points of a segment is zero at its ends. -/
theorem eq_zero_of_two {f : E →ᵃ[ℝ] ℝ} {a b p q : E} (hp : p ∈ segment ℝ a b)
    (hq : q ∈ segment ℝ a b) (hne : p ≠ q) (hfp : f p = 0) (hfq : f q = 0) :
    f a = 0 ∧ f b = 0 := by
  rw [segment_eq_image_lineMap] at hp hq
  obtain ⟨s, -, rfl⟩ := hp
  obtain ⟨t, -, rfl⟩ := hq
  have hst : s ≠ t := fun h => hne (by rw [h])
  rw [AffineMap.apply_lineMap, AffineMap.lineMap_apply_ring] at hfp hfq
  have hslope : (s - t) * (f b - f a) = 0 := by linarith
  have hequal : f b = f a :=
    sub_eq_zero.mp ((mul_eq_zero.mp hslope).resolve_left (sub_ne_zero.mpr hst))
  rw [hequal] at hfp
  have hzero : f a = 0 := by linarith
  exact ⟨hzero, hequal.trans hzero⟩

/-- **Segments with more than a point in common are on one line.** -/
theorem diam_eq_zero_of_not_on_line {f : E →ᵃ[ℝ] ℝ} {a b c d : E} (ha : f a = 0) (hb : f b = 0)
    (hnot : ¬(f c = 0 ∧ f d = 0)) : Metric.diam (segment ℝ a b ∩ segment ℝ c d) = 0 := by
  refine Metric.diam_subsingleton fun p hp q hq => ?_
  by_contra hne
  have hzero : ∀ p ∈ segment ℝ a b, f p = 0 := by
    intro p hp
    rw [segment_eq_image_lineMap] at hp
    obtain ⟨s, -, rfl⟩ := hp
    rw [AffineMap.apply_lineMap, ha, hb, AffineMap.lineMap_same]
    rfl
  exact hnot (eq_zero_of_two hp.2 hq.2 hne (hzero p hp.1) (hzero q hq.1))

/-! ## Lines of the plane -/

/-- The line of a slope of at most one, by its first coordinate. -/
theorem isometry_flat_line {slope : ℝ} (hslope : |slope| ≤ 1) (height : ℝ) :
    Isometry (AffineMap.lineMap ((0, height) : ℝ × ℝ) (1, height + slope) : ℝ →ᵃ[ℝ] ℝ × ℝ) := by
  refine Isometry.of_dist_eq fun s t => ?_
  have hunit : dist ((0, height) : ℝ × ℝ) (1, height + slope) = 1 := by
    rw [Prod.dist_eq, Real.dist_eq, Real.dist_eq]
    simp [hslope]
  rw [dist_lineMap_lineMap, hunit, mul_one]

theorem isometry_steep_line {slope : ℝ} (hslope : |slope| ≤ 1) (height : ℝ) :
    Isometry (AffineMap.lineMap ((height, 0) : ℝ × ℝ) (height + slope, 1) : ℝ →ᵃ[ℝ] ℝ × ℝ) := by
  refine Isometry.of_dist_eq fun s t => ?_
  have hunit : dist ((height, 0) : ℝ × ℝ) (height + slope, 1) = 1 := by
    rw [Prod.dist_eq, Real.dist_eq, Real.dist_eq]
    simp [hslope]
  rw [dist_lineMap_lineMap, hunit, mul_one]

/-- The affine function that is zero on the line of two points. -/
noncomputable def offLine (a b : ℝ × ℝ) : ℝ × ℝ →ᵃ[ℝ] ℝ :=
  ((b.1 - a.1) • LinearMap.snd ℝ ℝ ℝ - (b.2 - a.2) • LinearMap.fst ℝ ℝ ℝ).toAffineMap +
    AffineMap.const ℝ (ℝ × ℝ) ((b.2 - a.2) * a.1 - (b.1 - a.1) * a.2)

theorem offLine_apply (a b p : ℝ × ℝ) :
    offLine a b p = (b.1 - a.1) * (p.2 - a.2) - (b.2 - a.2) * (p.1 - a.1) := by
  unfold offLine
  simp
  ring

/-- **The greater extent of the common part of two segments of one line of the plane** is
that of its longer coordinate. -/
theorem diam_segment_inter_plane {a b c d : ℝ × ℝ} (hab : a ≠ b) (hc : offLine a b c = 0)
    (hd : offLine a b d = 0) :
    Metric.diam (segment ℝ a b ∩ segment ℝ c d) =
      if |b.2 - a.2| ≤ |b.1 - a.1| then overlap a.1 b.1 c.1 d.1
      else overlap a.2 b.2 c.2 d.2 := by
  rw [offLine_apply] at hc hd
  split
  · next hflat =>
      have hne : b.1 - a.1 ≠ 0 := by
        intro hzero
        rw [hzero, abs_zero] at hflat
        exact hab (Prod.ext (sub_eq_zero.mp hzero).symm
          (sub_eq_zero.mp (abs_nonpos_iff.mp hflat)).symm)
      have hslope : |(b.2 - a.2) / (b.1 - a.1)| ≤ 1 := by
        rw [abs_div]
        exact div_le_one_of_le₀ hflat (abs_nonneg _)
      have hpoint : ∀ p : ℝ × ℝ, (b.1 - a.1) * (p.2 - a.2) - (b.2 - a.2) * (p.1 - a.1) = 0 →
          AffineMap.lineMap ((0, a.2 - (b.2 - a.2) / (b.1 - a.1) * a.1) : ℝ × ℝ)
            (1, a.2 - (b.2 - a.2) / (b.1 - a.1) * a.1 + (b.2 - a.2) / (b.1 - a.1)) p.1 = p := by
        intro p hp
        rw [AffineMap.lineMap_apply]
        refine Prod.ext (by simp) ?_
        simp
        field_simp
        linarith
      have hdiam := diam_segment_inter _ (isometry_flat_line hslope
        (a.2 - (b.2 - a.2) / (b.1 - a.1) * a.1)) a.1 b.1 c.1 d.1
      rwa [hpoint a (by ring), hpoint b (by ring), hpoint c hc, hpoint d hd] at hdiam
  · next hsteep =>
      have hne : b.2 - a.2 ≠ 0 := by
        intro hzero
        rw [hzero, abs_zero] at hsteep
        exact hsteep (abs_nonneg _)
      have hslope : |(b.1 - a.1) / (b.2 - a.2)| ≤ 1 := by
        rw [abs_div]
        exact div_le_one_of_le₀ (not_le.mp hsteep).le (abs_nonneg _)
      have hpoint : ∀ p : ℝ × ℝ, (b.1 - a.1) * (p.2 - a.2) - (b.2 - a.2) * (p.1 - a.1) = 0 →
          AffineMap.lineMap ((a.1 - (b.1 - a.1) / (b.2 - a.2) * a.2, 0) : ℝ × ℝ)
            (a.1 - (b.1 - a.1) / (b.2 - a.2) * a.2 + (b.1 - a.1) / (b.2 - a.2), 1) p.2 = p := by
        intro p hp
        rw [AffineMap.lineMap_apply]
        refine Prod.ext ?_ (by simp)
        simp
        field_simp
        linarith
      have hdiam := diam_segment_inter _ (isometry_steep_line hslope
        (a.1 - (b.1 - a.1) / (b.2 - a.2) * a.2)) a.2 b.2 c.2 d.2
      rwa [hpoint a (by ring), hpoint b (by ring), hpoint c hc, hpoint d hd] at hdiam

/-- Segments of two lines have at most a point in common. -/
theorem diam_segment_inter_off_line {a b c d : ℝ × ℝ}
    (hnot : ¬(offLine a b c = 0 ∧ offLine a b d = 0)) :
    Metric.diam (segment ℝ a b ∩ segment ℝ c d) = 0 := by
  refine diam_eq_zero_of_not_on_line (f := offLine a b) ?_ ?_ hnot
  · rw [offLine_apply]
    ring
  · rw [offLine_apply]
    ring

/-! ## Edges of convex rings -/

/-- A common part longer than a point has a point inside both segments. -/
theorem exists_common_inner {a b c d : E}
    (hlong : Metric.diam (segment ℝ a b ∩ segment ℝ c d) ≠ 0) :
    ∃ t u : ℝ, 0 < t ∧ t < 1 ∧ 0 < u ∧ u < 1 ∧
      AffineMap.lineMap a b t = AffineMap.lineMap c d u := by
  have hbetween : ∀ s ∈ Set.Icc (0 : ℝ) 1, ∀ t ∈ Set.Icc (0 : ℝ) 1, s ≠ t →
      0 < midpoint ℝ s t ∧ midpoint ℝ s t < 1 := by
    rintro s ⟨hs0, hs1⟩ t ⟨ht0, ht1⟩ hne
    have hmid : midpoint ℝ s t = (s + t) / 2 := by
      rw [midpoint_eq_smul_add, smul_eq_mul, invOf_eq_inv]
      ring
    rw [hmid]
    rcases lt_or_gt_of_ne hne with h | h
    · exact ⟨by linarith, by linarith⟩
    · exact ⟨by linarith, by linarith⟩
  have hmany : (segment ℝ a b ∩ segment ℝ c d).Nontrivial :=
    Set.not_subsingleton_iff.mp fun h => hlong (Metric.diam_subsingleton h)
  rw [segment_eq_image_lineMap, segment_eq_image_lineMap] at hmany
  obtain ⟨p, ⟨⟨s, hs, hps⟩, ⟨s', hs', hps'⟩⟩, q, ⟨⟨t, ht, hqt⟩, ⟨t', ht', hqt'⟩⟩, hne⟩ := hmany
  obtain ⟨h0, h1⟩ := hbetween s hs t ht fun h => hne (by rw [← hps, ← hqt, h])
  obtain ⟨h0', h1'⟩ := hbetween s' hs' t' ht' fun h => hne (by rw [← hps', ← hqt', h])
  refine ⟨_, _, h0, h1, h0', h1', ?_⟩
  rw [AffineMap.map_midpoint, AffineMap.map_midpoint, hps, hqt, hps', hqt']

/-- Positive where two segments of one line go the same way. -/
def heading (a b c d : ℝ × ℝ) : ℝ := (b.1 - a.1) * (d.1 - c.1) + (b.2 - a.2) * (d.2 - c.2)

/-- **Edges with more than a point in common go opposite ways**, where both rings are on
the same side of their edges and the insides do not meet. -/
theorem heading_neg {R S : Plane.ConvexRing ℝ} (hsides : R.side = S.side)
    (happart : ¬∃ p, R.Inner p ∧ S.Inner p) {i j : ℕ}
    (hlong : Metric.diam (segment ℝ (R.vertex i) (R.vertex (i + 1)) ∩
      segment ℝ (S.vertex j) (S.vertex (j + 1))) ≠ 0) :
    heading (R.vertex i) (R.vertex (i + 1)) (S.vertex j) (S.vertex (j + 1)) < 0 := by
  have hline : Plane.cross (R.vertex i) (R.vertex (i + 1)) (S.vertex j) = 0 ∧
      Plane.cross (R.vertex i) (R.vertex (i + 1)) (S.vertex (j + 1)) = 0 := by
    by_contra hnot
    refine hlong (diam_segment_inter_off_line ?_)
    rwa [offLine_apply, offLine_apply]
  have hedge := Plane.ConvexRing.vertex_ne (R := R) i
  obtain ⟨u, hu⟩ := Plane.exists_lineMap_of_cross_eq_zero hedge hline.1
  obtain ⟨v, hv⟩ := Plane.exists_lineMap_of_cross_eq_zero hedge hline.2
  have huv : u ≠ v := fun h => Plane.ConvexRing.vertex_ne (R := S) j (by rw [← hu, ← hv, h])
  have hheading : heading (R.vertex i) (R.vertex (i + 1)) (S.vertex j) (S.vertex (j + 1)) =
      (v - u) * (((R.vertex (i + 1)).1 - (R.vertex i).1) ^ 2 +
        ((R.vertex (i + 1)).2 - (R.vertex i).2) ^ 2) := by
    unfold heading
    rw [← hu, ← hv, Plane.lineMap_fst, Plane.lineMap_fst, Plane.lineMap_snd, Plane.lineMap_snd]
    ring
  have hlength : 0 < ((R.vertex (i + 1)).1 - (R.vertex i).1) ^ 2 +
      ((R.vertex (i + 1)).2 - (R.vertex i).2) ^ 2 := by
    by_contra hzero
    have hx := sq_nonneg ((R.vertex (i + 1)).1 - (R.vertex i).1)
    have hy := sq_nonneg ((R.vertex (i + 1)).2 - (R.vertex i).2)
    refine hedge (Prod.ext ?_ ?_)
    · exact (sub_eq_zero.mp (pow_eq_zero_iff two_ne_zero |>.mp (by linarith))).symm
    · exact (sub_eq_zero.mp (pow_eq_zero_iff two_ne_zero |>.mp (by linarith))).symm
  rw [hheading]
  refine mul_neg_of_neg_of_pos (sub_neg.mpr (lt_of_le_of_ne ?_ huv.symm)) hlength
  -- else both insides are next to the common part, on its same side
  by_contra hsame
  obtain ⟨t, s, ht0, ht1, hs0, hs1, hcommon⟩ := exists_common_inner hlong
  have hnext := Plane.ConvexRing.height_next_pos (R := R) i
  refine happart (Plane.ConvexRing.meets_of_overlap ht0 ht1 hs0 hs1 hcommon hnext ?_)
  unfold Plane.ConvexRing.height at hnext ⊢
  rw [← hu, ← hv, Plane.cross_lineMap_lineMap, ← hsides, mul_left_comm]
  exact mul_pos (sub_pos.mpr (not_le.mp hsame)) hnext

end SegmentOverlap
