import PolygonNesting.Lib.NumberCounts

/-!
# Error of a rounding

A rounded number is within half a last place of the exact one, and what is nearer to a multiple
of the last place than that rounds to it.  Quotients, ceilings and remainders are rounded from
their exact values.
-/

namespace Binary64

/-! ## §1  The nearest integer -/

theorem abs_sub_roundTiesEven_le (q : ℚ) : |q - roundTiesEven q| ≤ 1 / 2 := by
  have hfloor := Int.floor_le q
  have hlt := Int.lt_floor_add_one q
  unfold roundTiesEven
  rw [abs_le]
  split_ifs <;> push_cast <;> constructor <;> linarith

theorem roundTiesEven_eq {q : ℚ} {n : ℤ} (h : |q - n| < 1 / 2) : roundTiesEven q = n := by
  have hround := abs_le.1 (abs_sub_roundTiesEven_le q)
  rw [abs_lt] at h
  have hup : ((roundTiesEven q - n : ℤ) : ℚ) < 1 := by
    push_cast
    linarith
  have hdown : ((-1 : ℤ) : ℚ) < ((roundTiesEven q - n : ℤ) : ℚ) := by
    push_cast
    linarith
  have hup : roundTiesEven q - n < 1 := by exact_mod_cast hup
  have hdown : -1 < roundTiesEven q - n := Int.cast_lt.1 hdown
  omega

/-! ## §2  The nearest number -/

variable {q p : ℚ} {e : ℤ}

theorem lastPlace_le (he : -1074 ≤ e) (hne : q ≠ 0) (h : |q| < 2 ^ (e + 53)) :
    lastPlace q ≤ e := by
  have hlog := (Int.lt_zpow_iff_log_lt (b := 2) one_lt_two (abs_pos.2 hne)).1
    (by exact_mod_cast h)
  unfold lastPlace
  omega

theorem lastPlace_eq (he : -1074 ≤ e) (hlow : 2 ^ (e + 52) ≤ |q|) (hhigh : |q| < 2 ^ (e + 53)) :
    lastPlace q = e := by
  have hpos : 0 < |q| := lt_of_lt_of_le (by positivity) hlow
  refine le_antisymm (lastPlace_le he (abs_pos.1 hpos) hhigh) ?_
  have hlog := (Int.zpow_le_iff_le_log (b := 2) one_lt_two hpos).1 (by exact_mod_cast hlow)
  unfold lastPlace
  omega

/-- **The error of a rounding** is half a last place. -/
theorem abs_sub_roundFinite_le (he : -1074 ≤ e) (h : |q| ≤ 2 ^ (e + 53)) :
    |q - roundFinite q| ≤ 2 ^ e / 2 := by
  rcases eq_or_ne q 0 with rfl | hne
  · rw [roundFinite_zero, sub_zero, abs_zero]
    positivity
  rcases h.lt_or_eq with hlt | heq
  · have hplace : (2 : ℚ) ^ lastPlace q ≤ 2 ^ e :=
      zpow_le_zpow_right₀ one_le_two (lastPlace_le he hne hlt)
    have hpos := lastPlace_pos q
    have herror := mul_le_mul_of_nonneg_right (abs_sub_roundTiesEven_le (q / 2 ^ lastPlace q))
      hpos.le
    calc |q - roundFinite q|
        = |q / 2 ^ lastPlace q - roundTiesEven (q / 2 ^ lastPlace q)| * 2 ^ lastPlace q := by
          rw [← abs_of_pos hpos, ← abs_mul, abs_of_pos hpos, sub_mul,
            div_mul_cancel₀ _ hpos.ne']
          rfl
      _ ≤ 1 / 2 * 2 ^ lastPlace q := herror
      _ ≤ 2 ^ e / 2 := by linarith
  · -- a power of two stays
    have hbits : ∀ m : ℤ, |m| ≤ 2 ^ 53 → q = m * 2 ^ e → |q - roundFinite q| ≤ 2 ^ e / 2 := by
      rintro m hm rfl
      rw [roundFinite_of_bits hm he, sub_self, abs_zero]
      positivity
    have hpow : (2 : ℚ) ^ (e + 53) = ((2 ^ 53 : ℤ) : ℚ) * 2 ^ e := by
      rw [add_comm, zpow_add₀ two_ne_zero]
      norm_cast
    rcases abs_choice q with hq | hq
    · exact hbits (2 ^ 53) (by norm_num) (by rw [← hpow, ← heq, hq])
    · refine hbits (-2 ^ 53) (by norm_num) ?_
      rw [← neg_neg q, ← hq, heq, hpow]
      push_cast
      ring

/-- **What is nearest to a multiple of its last place rounds to it.** -/
theorem roundFinite_eq_mul {n : ℤ} (hnear : |q - n * 2 ^ lastPlace q| < 2 ^ lastPlace q / 2) :
    roundFinite q = n * 2 ^ lastPlace q := by
  have hpos := lastPlace_pos q
  unfold roundFinite
  rw [roundTiesEven_eq]
  rw [← mul_lt_mul_iff_left₀ hpos, ← abs_of_pos hpos, ← abs_mul, abs_of_pos hpos, sub_mul,
    div_mul_cancel₀ _ hpos.ne']
  linarith

/-- What is nearest to a number of the format rounds to it. -/
theorem roundFinite_eq_of_near (hp : roundFinite p = p) (h : lastPlace q ≤ lastPlace p)
    (hnear : |q - p| < 2 ^ lastPlace q / 2) : roundFinite q = p := by
  obtain ⟨n, hn⟩ := exists_mul_lastPlace hp h
  rw [hn] at hnear ⊢
  exact roundFinite_eq_mul hnear

/-- A rounded number is above the exact one by at most half a last place of a bound. -/
theorem roundFinite_le_add_half (he : -1074 ≤ e) (hq : q ≤ p) (hp : |p| ≤ 2 ^ (e + 53)) :
    roundFinite q ≤ p + 2 ^ e / 2 := by
  have hpos : (0 : ℚ) < 2 ^ e := by positivity
  rcases le_or_gt (-2 ^ (e + 53)) q with hlow | hlow
  · have herror := abs_le.1 (abs_sub_roundFinite_le (q := q) he
      (abs_le.2 ⟨hlow, hq.trans (abs_le.1 hp).2⟩))
    linarith
  · have hbits : roundFinite (-2 ^ (e + 53)) = -2 ^ (e + 53) := by
      have := roundFinite_of_bits (m := -2 ^ 53) (e := e) (by norm_num) he
      rw [add_comm, zpow_add₀ two_ne_zero]
      push_cast at this
      rw [neg_mul] at this
      exact_mod_cast this
    have hround := roundFinite_le hbits hlow.le
    linarith [(abs_le.1 hp).1]

/-- What rounds below a power of two is below it. -/
theorem lt_zpow_of_roundFinite_lt (he : -1074 ≤ e) (h : roundFinite q < 2 ^ e) : q < 2 ^ e := by
  by_contra hle
  have hbits : roundFinite (2 ^ e) = 2 ^ e := by
    simpa using roundFinite_of_bits (m := 1) (e := e) (by norm_num) he
  exact absurd (le_roundFinite hbits (not_lt.1 hle)) (not_le.2 h)

/-! ## §3  Quotients, ceilings and remainders -/

/-- A number without a fraction is whole above it too. -/
theorem Representable.ceil (h : Representable q) : Representable (⌈q⌉ : ℚ) := by
  rcases le_or_gt |q| (2 ^ 53) with hsmall | hlarge
  · refine representable_intCast ?_
    rw [abs_le] at hsmall ⊢
    constructor
    · have hle : (((-2 ^ 53 : ℤ)) : ℚ) ≤ q := by
        push_cast
        exact hsmall.1
      exact_mod_cast (Int.le_ceil q).trans' hle
    · exact Int.ceil_le.2 (by exact_mod_cast hsmall.2)
  · -- the last place is whole, so the number is
    obtain ⟨d, hd⟩ : ∃ d : ℕ, lastPlace q = d := by
      have hlog := (Int.zpow_le_iff_le_log (b := 2) (x := 53) one_lt_two
        ((by positivity : (0 : ℚ) < 2 ^ 53).trans hlarge)).1 (by exact_mod_cast hlarge.le)
      refine ⟨(lastPlace q).toNat, (Int.toNat_of_nonneg ?_).symm⟩
      unfold lastPlace
      omega
    have hwhole : q = ((roundTiesEven (q / 2 ^ lastPlace q) * 2 ^ d : ℤ) : ℚ) := by
      push_cast
      rw [← zpow_natCast, ← hd]
      exact h.2.symm
    rw [hwhole, Int.ceil_intCast, ← hwhole]
    exact h

namespace Number

def div : Number → Number → Number
  | nan, _ => nan
  | _, nan => nan
  | infinity _, infinity _ => nan
  | infinity negative, finite value _ => infinity (negative != decide (value < 0))
  | finite _ _, infinity _ => round 0
  | finite first _, finite second _ =>
      if second = 0 then if first = 0 then nan else infinity (decide (first < 0))
      else round (first / second)

def ceil : Number → Number
  | nan => nan
  | infinity negative => infinity negative
  | finite value _ => ofInt ⌈value⌉

/-- The whole part, towards zero. -/
def truncated (q : ℚ) : ℤ := if 0 ≤ q then ⌊q⌋ else ⌈q⌉

/-- The remainder, with the sign of the dividend. -/
def remainder : Number → Number → Number
  | nan, _ => nan
  | _, nan => nan
  | infinity _, _ => nan
  | finite first representable, infinity _ => finite first representable
  | finite first _, finite second _ =>
      if second = 0 then nan else round (first - second * truncated (first / second))

/-- The remainder that is not below zero. -/
def remEuclid (first second : Number) : Number :=
  let rest := remainder first second
  if rest.lt (ofInt 0) then rest.add second.abs else rest

/-- The larger of two; not-a-number gives way. -/
def max (first second : Number) : Number :=
  if first.isNan then second else if second.isNan then first
  else if first.lt second then second else first

/-- `as usize`, which saturates. -/
def toUsize : Number → ℕ
  | nan => 0
  | infinity negative => if negative then 0 else 2 ^ 64 - 1
  | finite value _ => Min.min ⌊value⌋.toNat (2 ^ 64 - 1)

theorem ceil_finite (h : Representable q) : (finite q h).ceil = finite ⌈q⌉ h.ceil :=
  round_eq_finite h.ceil

/-- A quotient by a number not below one stays in range. -/
theorem div_finite {d : ℚ} (hq : Representable q) (hd : Representable d) (hone : 1 ≤ d) :
    ∃ h, (finite q hq).div (finite d hd) = finite (roundFinite (q / d)) h := by
  have hpos : 0 < d := one_pos.trans_le hone
  have habs : |q / d| ≤ |q| := by
    rw [abs_div, abs_of_pos hpos]
    exact div_le_self (abs_nonneg q) hone
  rw [abs_le] at habs
  have hneg : roundFinite (-|q|) = -|q| := by rw [roundFinite_negate, hq.abs.2]
  have hrange : |roundFinite (q / d)| < 2 ^ 1024 := by
    rw [abs_lt]
    have hup := roundFinite_le hq.abs.2 habs.2
    have hdown := le_roundFinite hneg habs.1
    exact ⟨(neg_lt_neg hq.1).trans_le hdown, hup.trans_lt hq.1⟩
  refine ⟨⟨hrange, roundFinite_roundFinite _⟩, ?_⟩
  show (if d = 0 then _ else round (q / d)) = _
  rw [if_neg hpos.ne']
  unfold round
  rw [dif_pos hrange]

/-- The remainder of a whole turn is not beyond it. -/
theorem remEuclid_le {d : ℚ} (hd : Representable d) (hpos : 0 < d) (first : Number) :
    (remEuclid first (finite d hd)).isNan = true ∨
      (remEuclid first (finite d hd)).le (finite d hd) = true := by
  have hround : ∀ q : ℚ, q ≤ d → (round q).le (finite d hd) = true := fun q h => round_le hd h
  cases first with
  | nan => exact .inl rfl
  | infinity negative => exact .inl rfl
  | finite q hq =>
      have hrest : q - d * truncated (q / d) ≤ d := by
        have hmul : d * (q / d) = q := mul_div_cancel₀ q hpos.ne'
        have htruncated : q / d - 1 ≤ truncated (q / d) := by
          unfold truncated
          split
          · linarith [Int.lt_floor_add_one (q / d)]
          · linarith [Int.le_ceil (q / d)]
        have hle := mul_le_mul_of_nonneg_left htruncated hpos.le
        rw [mul_sub, hmul, mul_one] at hle
        linarith
      right
      unfold remEuclid remainder
      simp only [hpos.ne', if_false]
      split
      · next hnegative =>
        generalize round (q - d * truncated (q / d)) = rest at hnegative
        cases rest with
        | nan => exact absurd hnegative Bool.false_ne_true
        | infinity negative =>
            cases negative with
            | true => rfl
            | false =>
                rw [ofInt_zero] at hnegative
                exact absurd hnegative Bool.false_ne_true
        | finite r hr =>
            rw [ofInt_zero] at hnegative
            have hneg : r < 0 := of_decide_eq_true hnegative
            refine hround _ ?_
            rw [abs_of_pos hpos]
            linarith
      · exact hround _ hrest

end Number

end Binary64
