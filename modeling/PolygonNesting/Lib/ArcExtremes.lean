import Mathlib

/-!
# Extremes on an arc

A wave over an interval of angles is largest at an end or where its derivative is zero, which is
at the angle of its coefficients up to half turns.
-/

namespace ArcExtremes

/-- A differentiable function is nowhere above all its values at the ends and the critical
places. -/
theorem exists_end_or_critical_ge {f f' : ℝ → ℝ} (hderiv : ∀ t, HasDerivAt f (f' t) t)
    {a b t : ℝ} (ht : t ∈ Set.Icc a b) :
    ∃ c ∈ Set.Icc a b, (c = a ∨ c = b ∨ f' c = 0) ∧ f t ≤ f c := by
  have hcont : ContinuousOn f (Set.Icc a b) := fun c _ => (hderiv c).continuousAt.continuousWithinAt
  obtain ⟨c, hc, hmax⟩ := isCompact_Icc.exists_isMaxOn ⟨t, ht⟩ hcont
  refine ⟨c, hc, ?_, hmax ht⟩
  rcases eq_or_ne c a with ha | ha
  · exact .inl ha
  rcases eq_or_ne c b with hb | hb
  · exact .inr (.inl hb)
  -- a greatest value inside is a local one
  have hinner : Set.Icc a b ∈ nhds c :=
    Icc_mem_nhds (hc.1.lt_of_ne ha.symm) (hc.2.lt_of_ne hb)
  exact .inr (.inr ((hmax.isLocalMax hinner).hasDerivAt_eq_zero (hderiv c)))

/-- A wave with given coefficients. -/
noncomputable def wave (A B t : ℝ) : ℝ := A * Real.cos t + B * Real.sin t

theorem hasDerivAt_wave (A B t : ℝ) : HasDerivAt (wave A B) (wave B (-A) t) t := by
  have hcos := (Real.hasDerivAt_cos t).const_mul A
  have hsin := (Real.hasDerivAt_sin t).const_mul B
  refine (hcos.add hsin).congr_deriv ?_
  unfold wave
  ring

theorem wave_add_int_mul_turn (A B t : ℝ) (n : ℤ) : wave A B (t + n * (2 * Real.pi)) = wave A B t := by
  unfold wave
  rw [Real.cos_add_int_mul_two_pi, Real.sin_add_int_mul_two_pi]

/-- The angle of the coefficients. -/
noncomputable def peak (A B : ℝ) : ℝ := Complex.arg ⟨A, B⟩

/-- **A wave is level** at the angle of its coefficients, up to half turns. -/
theorem exists_of_level {A B t : ℝ} (hne : A ≠ 0 ∨ B ≠ 0) (h : wave B (-A) t = 0) :
    ∃ n : ℤ, t = peak A B + n * Real.pi := by
  have hz : (⟨A, B⟩ : ℂ) ≠ 0 := by
    intro hzero
    rw [Complex.ext_iff] at hzero
    rcases hne with hne | hne
    · exact hne hzero.1
    · exact hne hzero.2
  have hnorm := norm_ne_zero_iff.2 hz
  have hcos : A = ‖(⟨A, B⟩ : ℂ)‖ * Real.cos (peak A B) := by
    unfold peak
    rw [Complex.cos_arg hz]
    field_simp
  have hsin : B = ‖(⟨A, B⟩ : ℂ)‖ * Real.sin (peak A B) := by
    unfold peak
    rw [Complex.sin_arg]
    field_simp
  have hzero : Real.sin (t - peak A B) = 0 := by
    unfold wave at h
    rw [Real.sin_sub]
    generalize ‖(⟨A, B⟩ : ℂ)‖ = norm at hnorm hcos hsin
    refine (mul_eq_zero.1 ?_).resolve_left hnorm
    linear_combination Real.cos t * hsin - Real.sin t * hcos - h
  obtain ⟨n, hn⟩ := Real.sin_eq_zero_iff.1 hzero
  exact ⟨n, by linarith⟩

/-- The first place of a phase from a start on. -/
noncomputable def firstFrom (period start phase : ℝ) : ℝ :=
  phase + ⌈(start - phase) / period⌉ * period

theorem start_le_firstFrom {period : ℝ} (hpos : 0 < period) (start phase : ℝ) :
    start ≤ firstFrom period start phase := by
  have h := (div_le_iff₀ hpos).1 (Int.le_ceil ((start - phase) / period))
  unfold firstFrom
  linarith

theorem firstFrom_le {period start phase : ℝ} (hpos : 0 < period) (n : ℤ)
    (h : start ≤ phase + n * period) : firstFrom period start phase ≤ phase + n * period := by
  have hceil : ⌈(start - phase) / period⌉ ≤ n := by
    rw [Int.ceil_le, div_le_iff₀ hpos]
    linarith
  have hcast : (⌈(start - phase) / period⌉ : ℝ) ≤ n := by exact_mod_cast hceil
  have hmul := mul_le_mul_of_nonneg_right hcast hpos.le
  unfold firstFrom
  linarith

/-- **A wave is extreme** at an end of an interval or at the first place there of its peak or of
its trough. -/
theorem exists_place_ge (A B σ : ℝ) {a b t : ℝ} (ht : t ∈ Set.Icc a b) :
    ∃ c ∈ Set.Icc a b, (c = a ∨ c = b ∨ ∃ phase,
        (phase = peak A B ∨ phase = peak A B + Real.pi) ∧ c = firstFrom (2 * Real.pi) a phase) ∧
      σ * wave A B t ≤ σ * wave A B c := by
  have hab : a ≤ b := ht.1.trans ht.2
  obtain ⟨c, hc, hplace, hle⟩ := exists_end_or_critical_ge
    (fun u => (hasDerivAt_wave A B u).const_mul σ) ht
  rcases hplace with rfl | rfl | hcritical
  · exact ⟨c, hc, .inl rfl, hle⟩
  · exact ⟨c, hc, .inr (.inl rfl), hle⟩
  rcases mul_eq_zero.1 hcritical with rfl | hlevel
  · exact ⟨a, ⟨le_rfl, hab⟩, .inl rfl, by simp⟩
  by_cases hne : A ≠ 0 ∨ B ≠ 0
  · obtain ⟨n, hn⟩ := exists_of_level hne hlevel
    obtain ⟨phase, m, hphase, hm⟩ : ∃ (phase : ℝ) (m : ℤ),
        (phase = peak A B ∨ phase = peak A B + Real.pi) ∧ c = phase + m * (2 * Real.pi) := by
      rcases Int.even_or_odd' n with ⟨m, rfl | rfl⟩
      · refine ⟨_, m, .inl rfl, ?_⟩
        rw [hn]
        push_cast
        ring
      · refine ⟨_, m, .inr rfl, ?_⟩
        rw [hn]
        push_cast
        ring
    have hfirst : firstFrom (2 * Real.pi) a phase ≤ b :=
      (firstFrom_le Real.two_pi_pos m (hm ▸ hc.1)).trans (hm ▸ hc.2)
    have hsame : wave A B (firstFrom (2 * Real.pi) a phase) = wave A B c := by
      unfold firstFrom
      rw [hm, wave_add_int_mul_turn, wave_add_int_mul_turn]
    exact ⟨_, ⟨start_le_firstFrom Real.two_pi_pos a phase, hfirst⟩, .inr (.inr ⟨phase, hphase, rfl⟩),
      by rwa [hsame]⟩
  · -- a level wave has one value
    push Not at hne
    obtain ⟨rfl, rfl⟩ := hne
    have hflat : ∀ u, wave 0 0 u = 0 := fun u => by unfold wave; ring
    exact ⟨a, ⟨le_rfl, hab⟩, .inl rfl, by rw [hflat, hflat]⟩

end ArcExtremes
