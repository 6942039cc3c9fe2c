import PolygonNesting.Canonical.Grid

set_option linter.unusedSectionVars false

/-!
# Rounding to the grid

Over an ordered field a number is rounded to the nearest grid coordinate, halves away from
zero.  Rounding keeps the order, gives a coordinate of the grid back, and says how a coordinate
is rounded when any offset is added to it.
-/

namespace PolygonNesting

variable {K : Type} [Field K] [LinearOrder K] [IsStrictOrderedRing K] [FloorRing K]
  [NumberTexts K]

theorem fromGrid_eq (value : ℤ) : (fromGrid value : K) = value / 1000 := by
  show (value : K) / ((1000 : ℕ) : K) = value / 1000
  norm_num

theorem signInt_of_pos {value : K} (h : 0 < value) : signInt value = 1 := by
  unfold signInt
  rw [if_neg h.ne', if_pos h]

theorem signInt_of_neg {value : K} (h : value < 0) : signInt value = -1 := by
  unfold signInt
  rw [if_neg h.ne, if_neg h.le.not_gt]

theorem toGridMm_eq (value : K) :
    toGridMm value =
      let gridValue := signInt value * ⌊|value| * 1000 + 1 / 2⌋
      if |gridValue| ≤ maxSafeInteger then some gridValue else none := by
  have hnat : (JsNumber.ofNat 1000 : K) = 1000 := by
    show ((1000 : ℕ) : K) = 1000
    norm_num
  have hhalf : (half : K) = 1 / 2 := by
    show (1 : K) / ((2 : ℕ) : K) = 1 / 2
    norm_num
  unfold toGridMm
  rw [hnat, hhalf]
  rfl

theorem units_of_toGridMm {value : K} {w : ℤ} (h : toGridMm value = some w) :
    w = signInt value * ⌊|value| * 1000 + 1 / 2⌋ := by
  rw [toGridMm_eq] at h
  dsimp only at h
  split at h
  · exact (Option.some.inj h).symm
  · cases h

theorem abs_le_of_toGridMm {value : K} {w : ℤ} (h : toGridMm value = some w) :
    |w| ≤ maxSafeInteger := by
  rw [toGridMm_eq] at h
  dsimp only at h
  split at h
  · rw [← Option.some.inj h]
    assumption
  · cases h

theorem toGridMm_fromGrid {g : ℤ} (hg : |g| ≤ maxSafeInteger) :
    toGridMm (fromGrid g : K) = some g := by
  have habs : ⌊|(g : K) / 1000| * 1000 + 1 / 2⌋ = |g| := by
    rw [abs_div, abs_of_pos (show (0 : K) < 1000 by norm_num),
      div_mul_cancel₀ _ (by norm_num), ← Int.cast_abs, Int.floor_intCast_add]
    norm_num
  have hsign : signInt ((g : K) / 1000) * |g| = g := by
    rcases lt_trichotomy g 0 with hneg | rfl | hpos
    · have hdiv : (g : K) / 1000 < 0 := div_neg_of_neg_of_pos (by exact_mod_cast hneg) (by norm_num)
      rw [signInt_of_neg hdiv, abs_of_neg hneg]
      ring
    · simp [signInt]
    · have hdiv : 0 < (g : K) / 1000 := div_pos (by exact_mod_cast hpos) (by norm_num)
      rw [signInt_of_pos hdiv, abs_of_pos hpos, one_mul]
  rw [toGridMm_eq, fromGrid_eq, habs, hsign]
  exact if_pos hg

/-- **Rounding keeps the order.** -/
theorem toGridMm_mono {a b : K} (hab : a ≤ b) {i j : ℤ} (hi : toGridMm a = some i)
    (hj : toGridMm b = some j) : i ≤ j := by
  have hunits : ∀ value : K, 0 ≤ ⌊|value| * 1000 + 1 / 2⌋ := fun value => by positivity
  have hnonpos : a ≤ 0 → i ≤ 0 := by
    intro ha
    rw [units_of_toGridMm hi]
    rcases ha.lt_or_eq with ha | rfl
    · rw [signInt_of_neg ha]
      linarith [hunits a]
    · simp [signInt]
  have hnonneg : 0 ≤ b → 0 ≤ j := by
    intro hb
    rw [units_of_toGridMm hj]
    rcases hb.lt_or_eq with hb | rfl
    · rw [signInt_of_pos hb, one_mul]
      exact hunits b
    · simp [signInt]
  rcases le_or_gt b 0 with hb | hb
  · rcases hb.lt_or_eq with hb | rfl
    · -- both are negative, and the first is the longer one
      have ha := lt_of_le_of_lt hab hb
      have hfloor : ⌊|b| * 1000 + 1 / 2⌋ ≤ ⌊|a| * 1000 + 1 / 2⌋ := by
        refine Int.floor_mono ?_
        rw [abs_of_neg ha, abs_of_neg hb]
        linarith
      rw [units_of_toGridMm hi, units_of_toGridMm hj, signInt_of_neg ha, signInt_of_neg hb]
      linarith
    · exact (hnonpos hab).trans (hnonneg le_rfl)
  · rcases le_or_gt a 0 with ha | ha
    · exact (hnonpos ha).trans (hnonneg hb.le)
    · have hfloor : ⌊|a| * 1000 + 1 / 2⌋ ≤ ⌊|b| * 1000 + 1 / 2⌋ := by
        refine Int.floor_mono ?_
        rw [abs_of_pos ha, abs_of_pos hb]
        linarith
      rw [units_of_toGridMm hi, units_of_toGridMm hj, signInt_of_pos ha, signInt_of_pos hb, one_mul, one_mul]
      exact hfloor

end PolygonNesting
