import Mathlib.Algebra.Order.BigOperators.Group.Finset
import Mathlib.Analysis.Convex.Combination
import Mathlib.LinearAlgebra.AffineSpace.AffineMap
import Mathlib.Tactic.FieldSimp
import Mathlib.Tactic.Linarith
import Mathlib.Tactic.LinearCombination
import Mathlib.Tactic.Positivity
import Mathlib.Tactic.Ring

/-!
# Orientation in the plane

The cross product of three points over an ordered field, its values along a
segment, and the first time a moving point leaves a finite intersection of
half-planes.
-/

namespace Plane

variable {K : Type} [Field K]

/-! ## §1  The cross product -/

/-- Twice the signed area of the triangle `a b c`; positive for a left turn. -/
def cross (a b c : K × K) : K :=
  (b.1 - a.1) * (c.2 - a.2) - (b.2 - a.2) * (c.1 - a.1)

@[simp] theorem cross_left (a b : K × K) : cross a b a = 0 := by
  unfold cross
  ring

@[simp] theorem cross_right (a b : K × K) : cross a b b = 0 := by
  unfold cross
  ring

theorem cross_rotate (a b c : K × K) : cross a b c = cross b c a := by
  unfold cross
  ring

theorem cross_swap (a b c : K × K) : cross b a c = -cross a b c := by
  unfold cross
  ring

theorem lineMap_fst (a b : K × K) (t : K) :
    (AffineMap.lineMap a b t).1 = a.1 + t * (b.1 - a.1) := by
  simp [AffineMap.lineMap_apply, add_comm]

theorem lineMap_snd (a b : K × K) (t : K) :
    (AffineMap.lineMap a b t).2 = a.2 + t * (b.2 - a.2) := by
  simp [AffineMap.lineMap_apply, add_comm]

/-- Along a segment the cross product is affine. -/
theorem cross_lineMap (a b c d : K × K) (t : K) :
    cross a b (AffineMap.lineMap c d t) =
      (1 - t) * cross a b c + t * cross a b d := by
  simp only [cross, lineMap_fst, lineMap_snd]
  ring

/-- A point on the line through two distinct points is a point of their
affine line. -/
theorem exists_lineMap_of_cross_eq_zero {a b c : K × K} (hab : a ≠ b)
    (h : cross a b c = 0) : ∃ t : K, AffineMap.lineMap a b t = c := by
  unfold cross at h
  by_cases hx : b.1 - a.1 = 0
  · have hy : b.2 - a.2 ≠ 0 := by
      intro hy
      exact hab (Prod.ext (sub_eq_zero.mp hx).symm (sub_eq_zero.mp hy).symm)
    have hc : c.1 - a.1 = 0 := by
      rw [hx, zero_mul, zero_sub, neg_eq_zero] at h
      exact (mul_eq_zero.mp h).resolve_left hy
    refine ⟨(c.2 - a.2) / (b.2 - a.2), Prod.ext ?_ ?_⟩
    · rw [lineMap_fst, hx, mul_zero, add_zero, sub_eq_zero.mp hc]
    · rw [lineMap_snd, div_mul_cancel₀ _ hy, add_sub_cancel]
  · refine ⟨(c.1 - a.1) / (b.1 - a.1), Prod.ext ?_ ?_⟩
    · rw [lineMap_fst, div_mul_cancel₀ _ hx, add_sub_cancel]
    · rw [lineMap_snd]
      field_simp
      linear_combination -h

variable [LinearOrder K] [IsStrictOrderedRing K]

/-! ## §2  Signs along a segment -/

/-- If a mix of two numbers is zero, both are zero, or the mix is at the zero
one, or they have opposite signs. -/
theorem mix_eq_zero {a b t : K} (h0 : 0 ≤ t) (h1 : t ≤ 1)
    (h : (1 - t) * a + t * b = 0) :
    (a = 0 ∧ b = 0) ∨ (a = 0 ∧ t = 0) ∨ (b = 0 ∧ t = 1) ∨ (a < 0 ∧ 0 < b) ∨
      (0 < a ∧ b < 0) := by
  have h1' := sub_nonneg.mpr h1
  rcases lt_trichotomy a 0 with ha | rfl | ha <;>
    rcases lt_trichotomy b 0 with hb | rfl | hb
  · rcases h0.lt_or_eq with ht | rfl
    · linarith [mul_nonpos_of_nonneg_of_nonpos h1' ha.le, mul_neg_of_pos_of_neg ht hb]
    · linarith
  · rw [mul_zero, add_zero] at h
    have := (mul_eq_zero.mp h).resolve_right ha.ne
    exact .inr (.inr (.inl ⟨rfl, by linarith⟩))
  · exact .inr (.inr (.inr (.inl ⟨ha, hb⟩)))
  · rw [mul_zero, zero_add] at h
    exact .inr (.inl ⟨rfl, (mul_eq_zero.mp h).resolve_right hb.ne⟩)
  · exact .inl ⟨rfl, rfl⟩
  · rw [mul_zero, zero_add] at h
    exact .inr (.inl ⟨rfl, (mul_eq_zero.mp h).resolve_right hb.ne'⟩)
  · exact .inr (.inr (.inr (.inr ⟨ha, hb⟩)))
  · rw [mul_zero, add_zero] at h
    have := (mul_eq_zero.mp h).resolve_right ha.ne'
    exact .inr (.inr (.inl ⟨rfl, by linarith⟩))
  · rcases h0.lt_or_eq with ht | rfl
    · linarith [mul_nonneg h1' ha.le, mul_pos ht hb]
    · linarith

/-! ## §3  Leaving a finite intersection of half-planes -/

/-- **The first exit.** Finitely many affine functions start non-negative, and
those that start at zero do not decrease.  If one ends negative, there is a
time at which all are still non-negative and one that ends negative is zero. -/
theorem exists_exit {ι : Type} {s : Finset ι} {f g : ι → K}
    (hf : ∀ i ∈ s, 0 ≤ f i) (hzero : ∀ i ∈ s, f i = 0 → 0 ≤ g i)
    (hneg : ∃ i ∈ s, g i < 0) :
    ∃ t, 0 < t ∧ t < 1 ∧ (∀ i ∈ s, 0 ≤ (1 - t) * f i + t * g i) ∧
      ∃ i ∈ s, g i < 0 ∧ (1 - t) * f i + t * g i = 0 := by
  classical
  -- the crossing times of the functions that end negative, and the least one
  let time : ι → K := fun i => f i / (f i - g i)
  obtain ⟨i₀, hi₀, hg₀⟩ := hneg
  obtain ⟨k, hk, hmin⟩ := (s.filter fun i => g i < 0).exists_min_image time
    ⟨i₀, Finset.mem_filter.mpr ⟨hi₀, hg₀⟩⟩
  obtain ⟨hks, hgk⟩ := Finset.mem_filter.mp hk
  have hpos : ∀ i ∈ s, g i < 0 → 0 < f i := by
    intro i hi hg
    rcases (hf i hi).lt_or_eq with h | h
    · exact h
    · exact absurd (hzero i hi h.symm) (not_le.mpr hg)
  have hfk := hpos k hks hgk
  have hden : 0 < f k - g k := by linarith
  have htime : time k * (f k - g k) = f k := div_mul_cancel₀ _ hden.ne'
  have ht0 : 0 < time k := div_pos hfk hden
  have ht1 : time k < 1 := (div_lt_one hden).mpr (by linarith)
  refine ⟨time k, ht0, ht1, ?_, k, hks, hgk, by linarith⟩
  intro i hi
  rcases lt_or_ge (g i) 0 with hg | hg
  · have hle := hmin i (Finset.mem_filter.mpr ⟨hi, hg⟩)
    have hdi : 0 < f i - g i := by linarith [hpos i hi hg]
    have := (le_div_iff₀ hdi).mp hle
    linarith
  · have h1 := mul_nonneg (sub_nonneg.mpr ht1.le) (hf i hi)
    have h2 := mul_nonneg ht0.le hg
    linarith

/-- The exit from strictly inside: one function reaches zero, at the end at
the latest. -/
theorem exists_exit_of_pos {ι : Type} {s : Finset ι} {f g : ι → K}
    (hf : ∀ i ∈ s, 0 < f i) (hout : ∃ i ∈ s, g i ≤ 0) :
    ∃ t, 0 < t ∧ t ≤ 1 ∧ (∀ i ∈ s, 0 ≤ (1 - t) * f i + t * g i) ∧
      ∃ i ∈ s, (1 - t) * f i + t * g i = 0 := by
  by_cases hneg : ∃ i ∈ s, g i < 0
  · obtain ⟨t, h0, h1, hall, i, hi, -, hzero⟩ :=
      exists_exit (fun i hi => (hf i hi).le)
        (fun i hi h => absurd h (hf i hi).ne') hneg
    exact ⟨t, h0, h1.le, hall, i, hi, hzero⟩
  · push Not at hneg
    obtain ⟨i, hi, hle⟩ := hout
    refine ⟨1, one_pos, le_rfl, fun j hj => ?_, i, hi, ?_⟩
    · simpa using hneg j hj
    · simpa using le_antisymm hle (hneg i hi)

/-- Finitely many functions positive or steady stay positive a little while. -/
theorem exists_small {ι : Type} {s : Finset ι} {f g : ι → K}
    (hf : ∀ i ∈ s, 0 < f i) :
    ∃ t, 0 < t ∧ t < 1 ∧ ∀ i ∈ s, 0 < (1 - t) * f i + t * g i := by
  by_cases hout : ∃ i ∈ s, g i ≤ 0
  · obtain ⟨t, h0, h1, hall, -⟩ := exists_exit_of_pos hf hout
    -- halfway to the exit everything is still positive
    refine ⟨t / 2, by linarith, by linarith, fun i hi => ?_⟩
    have := hall i hi
    have hfi := hf i hi
    linarith
  · push Not at hout
    refine ⟨1 / 2, by norm_num, by norm_num, fun i hi => ?_⟩
    have := hout i hi
    have hfi := hf i hi
    linarith

/-! ## §4  Crossing segments -/

/-- Strictly between two numbers is at an inner point of the way. -/
theorem exists_between_param {a b m : K} (h1 : min a b < m) (h2 : m < max a b) :
    ∃ t, 0 < t ∧ t < 1 ∧ a + t * (b - a) = m := by
  rcases lt_trichotomy a b with hab | rfl | hab
  · rw [min_eq_left hab.le] at h1
    rw [max_eq_right hab.le] at h2
    have hd := sub_pos.mpr hab
    refine ⟨(m - a) / (b - a), div_pos (sub_pos.mpr h1) hd,
      (div_lt_one hd).mpr (by linarith), ?_⟩
    rw [div_mul_cancel₀ _ hd.ne', add_sub_cancel]
  · rw [min_self] at h1
    rw [max_self] at h2
    exact absurd h1 (not_lt.mpr h2.le)
  · rw [min_eq_right hab.le] at h1
    rw [max_eq_left hab.le] at h2
    have hd := sub_neg.mpr hab
    refine ⟨(m - a) / (b - a), div_pos_of_neg_of_neg (sub_neg.mpr h2) hd,
      (div_lt_one_of_neg hd).mpr (by linarith), ?_⟩
    rw [div_mul_cancel₀ _ hd.ne, add_sub_cancel]

theorem between_of_param {a b t : K} (hab : a ≠ b) (h0 : 0 < t) (h1 : t < 1) :
    min a b < a + t * (b - a) ∧ a + t * (b - a) < max a b := by
  rcases lt_or_gt_of_ne hab with h | h
  · rw [min_eq_left h.le, max_eq_right h.le]
    have h2 := mul_pos h0 (sub_pos.mpr h)
    have h3 := mul_pos (sub_pos.mpr h1) (sub_pos.mpr h)
    constructor <;> linarith
  · rw [min_eq_right h.le, max_eq_left h.le]
    have h2 := mul_pos h0 (sub_pos.mpr h)
    have h3 := mul_pos (sub_pos.mpr h1) (sub_pos.mpr h)
    constructor <;> linarith

theorem param_of_between {a b t : K} (hab : a ≠ b) (h0 : min a b ≤ a + t * (b - a))
    (h1 : a + t * (b - a) ≤ max a b) : 0 ≤ t ∧ t ≤ 1 := by
  rcases lt_or_gt_of_ne hab with h | h
  · rw [min_eq_left h.le] at h0
    rw [max_eq_right h.le] at h1
    have hpos := sub_pos.mpr h
    refine ⟨nonneg_of_mul_nonneg_left (by linarith) hpos, ?_⟩
    exact le_of_mul_le_mul_right (by linarith) hpos
  · rw [min_eq_right h.le] at h0
    rw [max_eq_left h.le] at h1
    have hneg := sub_pos.mpr h
    refine ⟨nonneg_of_mul_nonneg_left (by linarith : 0 ≤ t * (a - b)) hneg, ?_⟩
    exact le_of_mul_le_mul_right (by linarith : t * (a - b) ≤ 1 * (a - b)) hneg

/-- A point of a line in the box of two of its points is between them. -/
theorem exists_lineMap_of_box {a b c : K × K} (hcross : cross a b c = 0)
    (hx : min a.1 c.1 ≤ b.1) (hx' : b.1 ≤ max a.1 c.1) (hy : min a.2 c.2 ≤ b.2)
    (hy' : b.2 ≤ max a.2 c.2) : ∃ t : K, 0 ≤ t ∧ t ≤ 1 ∧ AffineMap.lineMap a c t = b := by
  by_cases hac : a = c
  · subst hac
    rw [min_self] at hx hy
    rw [max_self] at hx' hy'
    refine ⟨0, le_rfl, zero_le_one, ?_⟩
    rw [AffineMap.lineMap_apply_zero]
    exact Prod.ext (le_antisymm hx hx') (le_antisymm hy hy')
  · obtain ⟨t, rfl⟩ := exists_lineMap_of_cross_eq_zero hac (c := b) (by
      rw [cross_rotate, cross_swap, ← cross_rotate, hcross, neg_zero])
    rw [lineMap_fst] at hx hx'
    rw [lineMap_snd] at hy hy'
    by_cases h1 : a.1 = c.1
    · have h2 : a.2 ≠ c.2 := fun h2 => hac (Prod.ext h1 h2)
      obtain ⟨h0, h1⟩ := param_of_between h2 hy hy'
      exact ⟨t, h0, h1, rfl⟩
    · obtain ⟨h0, h1⟩ := param_of_between h1 hx hx'
      exact ⟨t, h0, h1, rfl⟩

/-- A mix of opposite numbers that is zero is strictly inside. -/
theorem param_of_opposite {a b t : K} (h : (1 - t) * a + t * b = 0)
    (hopp : (a < 0 ∧ 0 < b) ∨ (0 < a ∧ b < 0)) : 0 < t ∧ t < 1 := by
  have ht : t * (b - a) = -a := by linarith
  have ht' : (1 - t) * (b - a) = b := by linarith
  rcases hopp with ⟨ha, hb⟩ | ⟨ha, hb⟩
  · have hd : 0 < b - a := by linarith
    constructor
    · exact pos_of_mul_pos_left (ht ▸ neg_pos.mpr ha) hd.le
    · exact sub_pos.mp (pos_of_mul_pos_left (by rw [ht']; exact hb) hd.le)
  · have hd : b - a < 0 := by linarith
    constructor
    · exact pos_of_mul_neg_left (ht ▸ neg_lt_zero.mpr ha) hd.le
    · exact sub_pos.mp (pos_of_mul_neg_left (by rw [ht']; exact hb) hd.le)

/-- **Segments whose ends are strictly on opposite sides of each other's lines
cross at an inner point of both.** -/
theorem exists_crossing {a b c d : K × K}
    (h1 : (cross a b c < 0 ∧ 0 < cross a b d) ∨ (0 < cross a b c ∧ cross a b d < 0))
    (h2 : (cross c d a < 0 ∧ 0 < cross c d b) ∨
      (0 < cross c d a ∧ cross c d b < 0)) :
    ∃ t u : K, 0 < t ∧ t < 1 ∧ 0 < u ∧ u < 1 ∧
      AffineMap.lineMap a b t = AffineMap.lineMap c d u := by
  have hne : cross a b c - cross a b d ≠ 0 := by
    rcases h1 with ⟨h, h'⟩ | ⟨h, h'⟩
    · exact (by linarith : cross a b c - cross a b d < 0).ne
    · exact (by linarith : 0 < cross a b c - cross a b d).ne'
  have hab : a ≠ b := by
    rintro rfl
    rcases h2 with ⟨h, h'⟩ | ⟨h, h'⟩ <;> exact lt_asymm h h'
  let u := cross a b c / (cross a b c - cross a b d)
  have hu : (1 - u) * cross a b c + u * cross a b d = 0 := by
    have : u * (cross a b c - cross a b d) = cross a b c := div_mul_cancel₀ _ hne
    linarith
  obtain ⟨t, ht⟩ := exists_lineMap_of_cross_eq_zero hab
    (c := AffineMap.lineMap c d u) (by rw [cross_lineMap, hu])
  have htz : (1 - t) * cross c d a + t * cross c d b = 0 := by
    rw [← cross_lineMap, ht, cross_lineMap]
    simp
  obtain ⟨hu0, hu1⟩ := param_of_opposite hu h1
  obtain ⟨ht0, ht1⟩ := param_of_opposite htz h2
  exact ⟨t, u, ht0, ht1, hu0, hu1, ht⟩

omit [LinearOrder K] [IsStrictOrderedRing K] in
/-- Heights over a segment of a line are the line's, rescaled. -/
theorem cross_lineMap_lineMap (a b q : K × K) (u v : K) :
    cross (AffineMap.lineMap a b u) (AffineMap.lineMap a b v) q =
      (v - u) * cross a b q := by
  simp only [cross, lineMap_fst, lineMap_snd]
  ring

/-! ## §5  Interiors -/

/-- The algebraic interior of a set: from its points every direction can be
followed a little. -/
def core (s : Set (K × K)) : Set (K × K) :=
  {q | ∀ d : K × K, ∃ t : K, 0 < t ∧ q + t • d ∈ s}

end Plane
