import Mathlib.Analysis.Convex.Extreme
import PolygonNesting.Lib.Plane

/-!
# Where two segments meet

Two segments with a common point touch in an end of one of them or cross properly.  Properly
crossing segments have one common point, and the ends of the overlap of segments on one line are
the ends of the segments in it.
-/

namespace Plane

variable {K : Type} [Field K] [LinearOrder K] [IsStrictOrderedRing K] {a b c d p : K × K}

/-! ## §1  The points of a segment -/

theorem mem_segment_iff_lineMap :
    p ∈ segment K a b ↔ ∃ t : K, 0 ≤ t ∧ t ≤ 1 ∧ AffineMap.lineMap a b t = p := by
  rw [segment_eq_image_lineMap]
  constructor
  · rintro ⟨t, ⟨h0, h1⟩, rfl⟩
    exact ⟨t, h0, h1, rfl⟩
  · rintro ⟨t, h0, h1, rfl⟩
    exact ⟨t, ⟨h0, h1⟩, rfl⟩

theorem box_of_param {a b t : K} (h0 : 0 ≤ t) (h1 : t ≤ 1) :
    min a b ≤ a + t * (b - a) ∧ a + t * (b - a) ≤ max a b := by
  have h1' := sub_nonneg.mpr h1
  rcases le_total a b with hab | hab
  · rw [min_eq_left hab, max_eq_right hab]
    have h2 := mul_nonneg h0 (sub_nonneg.mpr hab)
    have h3 := mul_nonneg h1' (sub_nonneg.mpr hab)
    constructor <;> linarith
  · rw [min_eq_right hab, max_eq_left hab]
    have h2 := mul_nonneg h0 (sub_nonneg.mpr hab)
    have h3 := mul_nonneg h1' (sub_nonneg.mpr hab)
    constructor <;> linarith

/-- A segment is the part of its line in its box. -/
theorem mem_segment_iff_box :
    p ∈ segment K a b ↔ cross a b p = 0 ∧ (min a.1 b.1 ≤ p.1 ∧ p.1 ≤ max a.1 b.1) ∧
      (min a.2 b.2 ≤ p.2 ∧ p.2 ≤ max a.2 b.2) := by
  rw [mem_segment_iff_lineMap]
  constructor
  · rintro ⟨t, h0, h1, rfl⟩
    rw [cross_lineMap, cross_left, cross_right, lineMap_fst, lineMap_snd]
    exact ⟨by ring, box_of_param h0 h1, box_of_param h0 h1⟩
  · rintro ⟨hcross, ⟨hx, hx'⟩, hy, hy'⟩
    refine exists_lineMap_of_box ?_ hx hx' hy hy'
    rw [cross_rotate, cross_swap, ← cross_rotate, hcross, neg_zero]

/-! ## §2  A common point -/

/-- The ends of the second segment are strictly on opposite sides of the line of the first. -/
def Opposite (a b c d : K × K) : Prop :=
  (cross a b c < 0 ∧ 0 < cross a b d) ∨ (0 < cross a b c ∧ cross a b d < 0)

/-- On one line, an end of one of the segments is in the other. -/
theorem exists_end_of_collinear (hab : a ≠ b) (hc : cross a b c = 0) (hd : cross a b d = 0)
    (hp : p ∈ segment K a b) (hp' : p ∈ segment K c d) :
    c ∈ segment K a b ∨ d ∈ segment K a b ∨ a ∈ segment K c d := by
  obtain ⟨s, hs0, hs1, hs⟩ := mem_segment_iff_lineMap.1 hp
  obtain ⟨t, ht0, ht1, ht⟩ := mem_segment_iff_lineMap.1 hp'
  obtain ⟨u, hu⟩ := exists_lineMap_of_cross_eq_zero hab hc
  obtain ⟨v, hv⟩ := exists_lineMap_of_cross_eq_zero hab hd
  by_cases hu01 : 0 ≤ u ∧ u ≤ 1
  · exact .inl (mem_segment_iff_lineMap.2 ⟨u, hu01.1, hu01.2, hu⟩)
  by_cases hv01 : 0 ≤ v ∧ v ≤ 1
  · exact .inr (.inl (mem_segment_iff_lineMap.2 ⟨v, hv01.1, hv01.2, hv⟩))
  have hmix : s = (1 - t) * u + t * v := by
    have hpoint : AffineMap.lineMap a b s = AffineMap.lineMap a b ((1 - t) * u + t * v) := by
      rw [hs, ← ht, ← hu, ← hv]
      refine Prod.ext ?_ ?_ <;> simp only [lineMap_fst, lineMap_snd] <;> ring
    exact AffineMap.lineMap_injective K hab hpoint
  -- the ends of the second are beyond both ends of the first
  have hbeyond : (u < 0 ∧ 1 < v) ∨ (1 < u ∧ v < 0) := by
    rw [not_and_or, not_le, not_le] at hu01 hv01
    have h1' := sub_nonneg.mpr ht1
    rcases hu01 with hu0 | hu1 <;> rcases hv01 with hv0 | hv1
    · rcases ht0.lt_or_eq with ht | rfl
      · linarith [mul_nonpos_of_nonneg_of_nonpos h1' hu0.le, mul_neg_of_pos_of_neg ht hv0]
      · linarith
    · exact .inl ⟨hu0, hv1⟩
    · exact .inr ⟨hu1, hv0⟩
    · rcases ht0.lt_or_eq with ht | rfl
      · linarith [mul_nonneg h1' (sub_pos.mpr hu1).le, mul_pos ht (sub_pos.mpr hv1)]
      · linarith
  have huv : v - u ≠ 0 := by
    rcases hbeyond with ⟨h1, h2⟩ | ⟨h1, h2⟩
    · exact (by linarith : 0 < v - u).ne'
    · exact (by linarith : v - u < 0).ne
  refine .inr (.inr (mem_segment_iff_lineMap.2 ⟨-u / (v - u), ?_, ?_, ?_⟩))
  · rcases hbeyond with ⟨h1, h2⟩ | ⟨h1, h2⟩
    · exact div_nonneg (by linarith) (by linarith)
    · exact div_nonneg_of_nonpos (by linarith) (by linarith)
  · rcases hbeyond with ⟨h1, h2⟩ | ⟨h1, h2⟩
    · exact (div_le_one (by linarith)).mpr (by linarith)
    · exact (div_le_one_of_neg (by linarith)).mpr (by linarith)
  · rw [← hu, ← hv]
    refine Prod.ext ?_ ?_ <;> simp only [lineMap_fst, lineMap_snd] <;> field_simp <;> ring

/-- **Segments with a common point touch in an end or cross properly.** -/
theorem exists_end_or_opposite (hp : p ∈ segment K a b) (hp' : p ∈ segment K c d) :
    c ∈ segment K a b ∨ d ∈ segment K a b ∨ a ∈ segment K c d ∨ b ∈ segment K c d ∨
      (Opposite a b c d ∧ Opposite c d a b) := by
  by_cases hab : a = b
  · -- a segment of one point, which is in the other
    subst hab
    rw [segment_same, Set.mem_singleton_iff] at hp
    subst hp
    exact .inr (.inr (.inl hp'))
  obtain ⟨s, hs0, hs1, hs⟩ := mem_segment_iff_lineMap.1 hp
  obtain ⟨t, ht0, ht1, ht⟩ := mem_segment_iff_lineMap.1 hp'
  have hfirst : (1 - t) * cross a b c + t * cross a b d = 0 := by
    rw [← cross_lineMap, ht, ← hs, cross_lineMap]
    simp
  have hsecond : (1 - s) * cross c d a + s * cross c d b = 0 := by
    rw [← cross_lineMap, hs, ← ht, cross_lineMap]
    simp
  rcases mix_eq_zero ht0 ht1 hfirst with ⟨hc, hd⟩ | ⟨-, rfl⟩ | ⟨-, rfl⟩ | hopposite
  · rcases exists_end_of_collinear hab hc hd hp hp' with h | h | h
    · exact .inl h
    · exact .inr (.inl h)
    · exact .inr (.inr (.inl h))
  · rw [AffineMap.lineMap_apply_zero] at ht
    exact .inl (ht ▸ hp)
  · rw [AffineMap.lineMap_apply_one] at ht
    exact .inr (.inl (ht ▸ hp))
  · rcases mix_eq_zero hs0 hs1 hsecond with ⟨ha, hb⟩ | ⟨-, rfl⟩ | ⟨-, rfl⟩ | hopposite'
    · -- on one line after all, against the strict signs
      exfalso
      have hsum : cross a b c - cross a b d = cross c d b - cross c d a := by
        unfold cross
        ring
      rw [ha, hb] at hsum
      rcases hopposite with ⟨h1, h2⟩ | ⟨h1, h2⟩ <;> linarith
    · rw [AffineMap.lineMap_apply_zero] at hs
      exact .inr (.inr (.inl (hs ▸ hp')))
    · rw [AffineMap.lineMap_apply_one] at hs
      exact .inr (.inr (.inr (.inl (hs ▸ hp'))))
    · exact .inr (.inr (.inr (.inr ⟨hopposite, hopposite'⟩)))

/-! ## §3  A proper crossing -/

/-- The cross product of two directions. -/
def directionCross (u v : K × K) : K := u.1 * v.2 - u.2 * v.1

omit [LinearOrder K] [IsStrictOrderedRing K] in
theorem directionCross_eq (a b c d : K × K) :
    directionCross (b - a) (d - c) = cross a b d - cross a b c := by
  unfold directionCross cross
  simp only [Prod.fst_sub, Prod.snd_sub]
  ring

theorem Opposite.directionCross_ne_zero (h : Opposite a b c d) :
    directionCross (b - a) (d - c) ≠ 0 := by
  rw [directionCross_eq]
  rcases h with ⟨h1, h2⟩ | ⟨h1, h2⟩
  · exact (by linarith : 0 < cross a b d - cross a b c).ne'
  · exact (by linarith : cross a b d - cross a b c < 0).ne

/-- The place of a common point along the first segment. -/
theorem param_of_common (h : directionCross (b - a) (d - c) ≠ 0) {t u : K}
    (hp : AffineMap.lineMap a b t = AffineMap.lineMap c d u) :
    t = directionCross (c - a) (d - c) / directionCross (b - a) (d - c) := by
  have hx := congrArg Prod.fst hp
  have hy := congrArg Prod.snd hp
  rw [lineMap_fst, lineMap_fst] at hx
  rw [lineMap_snd, lineMap_snd] at hy
  rw [eq_div_iff h]
  unfold directionCross
  simp only [Prod.fst_sub, Prod.snd_sub]
  linear_combination (d.2 - c.2) * hx - (d.1 - c.1) * hy

/-- **Properly crossing segments have one common point**, at a known place of the first. -/
theorem mem_inter_iff_of_opposite (h : Opposite a b c d) (h' : Opposite c d a b) :
    p ∈ segment K a b ∩ segment K c d ↔ p = AffineMap.lineMap a b
      (directionCross (c - a) (d - c) / directionCross (b - a) (d - c)) := by
  have hne := h.directionCross_ne_zero
  constructor
  · rintro ⟨hp, hp'⟩
    obtain ⟨s, -, -, hs⟩ := mem_segment_iff_lineMap.1 hp
    obtain ⟨t, -, -, ht⟩ := mem_segment_iff_lineMap.1 hp'
    rw [← hs, param_of_common hne (hs.trans ht.symm)]
  · rintro rfl
    obtain ⟨t, u, ht0, ht1, hu0, hu1, htu⟩ := exists_crossing h h'
    rw [← param_of_common hne htu]
    exact ⟨mem_segment_iff_lineMap.2 ⟨t, ht0.le, ht1.le, rfl⟩,
      mem_segment_iff_lineMap.2 ⟨u, hu0.le, hu1.le, htu.symm⟩⟩

/-! ## §4  The ends of an overlap -/

omit [LinearOrder K] [IsStrictOrderedRing K] in
/-- A point between two points of a line. -/
theorem lineMap_lineMap_param (a b : K × K) (s t r : K) :
    AffineMap.lineMap (AffineMap.lineMap a b s) (AffineMap.lineMap a b t) r =
      AffineMap.lineMap a b ((1 - r) * s + r * t) := by
  refine Prod.ext ?_ ?_ <;> simp only [lineMap_fst, lineMap_snd] <;> ring

theorem left_mem_extremePoints (a b : K × K) : a ∈ (segment K a b).extremePoints K := by
  refine ⟨left_mem_segment K a b, fun x hx y hy hopen => ?_⟩
  by_cases hab : a = b
  · subst hab
    rw [segment_same] at hx
    exact hx
  · obtain ⟨s, hs0, -, rfl⟩ := mem_segment_iff_lineMap.1 hx
    obtain ⟨t, ht0, -, rfl⟩ := mem_segment_iff_lineMap.1 hy
    rw [openSegment_eq_image_lineMap] at hopen
    obtain ⟨r, ⟨hr0, hr1⟩, hr⟩ := hopen
    have hzero : (1 - r) * s + r * t = 0 := by
      refine AffineMap.lineMap_injective K hab ?_
      rw [← lineMap_lineMap_param, hr, AffineMap.lineMap_apply_zero]
    have hs : s = 0 := by
      have h1 := mul_nonneg hr0.le ht0
      have h2 := mul_nonneg (sub_pos.mpr hr1).le hs0
      exact (mul_eq_zero.1 (by linarith : (1 - r) * s = 0)).resolve_left (sub_pos.mpr hr1).ne'
    rw [hs, AffineMap.lineMap_apply_zero]

theorem right_mem_extremePoints (a b : K × K) : b ∈ (segment K a b).extremePoints K := by
  rw [segment_symm]
  exact left_mem_extremePoints b a

/-- Inside two segments of one line there is room along the line. -/
theorem exists_room {s t k : K} (hs0 : 0 < s) (hs1 : s < 1) (ht0 : 0 < t) (ht1 : t < 1) :
    ∃ e, 0 < e ∧ (0 ≤ s - e ∧ s + e ≤ 1) ∧ (0 ≤ t - e * k ∧ t - e * k ≤ 1) ∧
      (0 ≤ t + e * k ∧ t + e * k ≤ 1) := by
  have hk : 0 < |k| + 1 := by positivity
  obtain ⟨e, he0, he⟩ := exists_between
    (lt_min (lt_min hs0 (sub_pos.2 hs1)) (lt_min (div_pos ht0 hk) (div_pos (sub_pos.2 ht1) hk)))
  obtain ⟨⟨hes, hes'⟩, het, het'⟩ : (e < s ∧ e < 1 - s) ∧ e < t / (|k| + 1) ∧
      e < (1 - t) / (|k| + 1) := by
    simpa [lt_min_iff] using he
  rw [lt_div_iff₀ hk] at het het'
  have habs := abs_le.1 (le_refl |e * k|)
  have hsize : |e * k| ≤ e * (|k| + 1) := by
    rw [abs_mul, abs_of_pos he0]
    linarith
  exact ⟨e, he0, ⟨by linarith, by linarith⟩, ⟨by linarith, by linarith⟩,
    by linarith, by linarith⟩

/-- **The ends of the overlap of segments on one line** are the ends of either that are in
both. -/
theorem mem_extremePoints_inter_iff (hc : cross a b c = 0) (hd : cross a b d = 0) :
    p ∈ (segment K a b ∩ segment K c d).extremePoints K ↔
      p ∈ segment K a b ∩ segment K c d ∧ (p = a ∨ p = b ∨ p = c ∨ p = d) := by
  constructor
  · intro hextreme
    refine ⟨hextreme.1, ?_⟩
    by_contra hends
    push Not at hends
    obtain ⟨hpa, hpb, hpc, hpd⟩ := hends
    obtain ⟨⟨hp, hp'⟩, hopen⟩ := hextreme
    obtain ⟨s, hs0, hs1, rfl⟩ := mem_segment_iff_lineMap.1 hp
    obtain ⟨t, ht0, ht1, ht⟩ := mem_segment_iff_lineMap.1 hp'
    have hab : a ≠ b := by
      rintro rfl
      exact hpa (by simp)
    have hinner : ∀ {t : K} {a b q : K × K}, 0 ≤ t → t ≤ 1 → AffineMap.lineMap a b t = q →
        q ≠ a → q ≠ b → 0 < t ∧ t < 1 := by
      intro t a b q h0 h1 hq ha hb
      refine ⟨h0.lt_of_ne fun h => ha ?_, h1.lt_of_ne fun h => hb ?_⟩
      · rw [← hq, ← h, AffineMap.lineMap_apply_zero]
      · rw [← hq, h, AffineMap.lineMap_apply_one]
    obtain ⟨hs0, hs1⟩ := hinner hs0 hs1 rfl hpa hpb
    obtain ⟨ht0, ht1⟩ := hinner ht0 ht1 ht hpc hpd
    obtain ⟨u, rfl⟩ := exists_lineMap_of_cross_eq_zero hab hc
    obtain ⟨v, rfl⟩ := exists_lineMap_of_cross_eq_zero hab hd
    have huv : v - u ≠ 0 := by
      intro h
      obtain rfl := sub_eq_zero.1 h
      exact hpc (by rw [← ht]; simp)
    have hst : s = (1 - t) * u + t * v := by
      refine AffineMap.lineMap_injective K hab ?_
      rw [← ht, lineMap_lineMap_param]
    -- a step to either side stays in both segments
    obtain ⟨e, he, ⟨hleft, hright⟩, ⟨hleft0, hleft1⟩, hright0, hright1⟩ :=
      exists_room (k := (v - u)⁻¹) hs0 hs1 ht0 ht1
    have hmem : ∀ w : K, 0 ≤ s + w → s + w ≤ 1 → 0 ≤ t + w * (v - u)⁻¹ →
        t + w * (v - u)⁻¹ ≤ 1 → AffineMap.lineMap a b (s + w) ∈ segment K a b ∩
          segment K (AffineMap.lineMap a b u) (AffineMap.lineMap a b v) := by
      intro w h0 h1 h0' h1'
      refine ⟨mem_segment_iff_lineMap.2 ⟨_, h0, h1, rfl⟩,
        mem_segment_iff_lineMap.2 ⟨_, h0', h1', ?_⟩⟩
      rw [lineMap_lineMap_param]
      congr 1
      rw [hst]
      field_simp
      ring
    have hstep := hopen (hmem (-e) (by linarith) (by linarith) (by linarith) (by linarith))
      (hmem e (by linarith) (by linarith) (by linarith) (by linarith)) (by
        rw [openSegment_eq_image_lineMap]
        refine ⟨1 / 2, ⟨by norm_num, by norm_num⟩, ?_⟩
        rw [lineMap_lineMap_param]
        congr 1
        ring)
    have hzero := AffineMap.lineMap_injective K hab hstep
    linarith
  · rintro ⟨hp, hend⟩
    rcases hend with rfl | rfl | rfl | rfl
    · exact inter_extremePoints_subset_extremePoints_of_subset Set.inter_subset_left
        ⟨hp, left_mem_extremePoints _ _⟩
    · exact inter_extremePoints_subset_extremePoints_of_subset Set.inter_subset_left
        ⟨hp, right_mem_extremePoints _ _⟩
    · exact inter_extremePoints_subset_extremePoints_of_subset Set.inter_subset_right
        ⟨hp, left_mem_extremePoints _ _⟩
    · exact inter_extremePoints_subset_extremePoints_of_subset Set.inter_subset_right
        ⟨hp, right_mem_extremePoints _ _⟩

end Plane
