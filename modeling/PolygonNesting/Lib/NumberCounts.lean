import PolygonNesting.Lib.Binary64

/-!
# Counting with binary64 numbers

A rounded sum or difference does not pass a number of the format that bounds the exact one.  So
what is spent within a rounded remainder stays within every whole bound of the budget, although
the budget itself need not be whole and the remainder is rounded each time.
-/

namespace Binary64

/-! ## §1  Rounding keeps bounds -/

theorem lastPlace_mono {q p : ℚ} (hq : 0 < |q|) (h : |q| ≤ |p|) : lastPlace q ≤ lastPlace p := by
  unfold lastPlace
  have := Int.log_mono_right (b := 2) hq h
  omega

/-- A number of the format is a multiple of the last place of every number not longer. -/
theorem exists_mul_lastPlace {q p : ℚ} (hp : roundFinite p = p) (h : lastPlace q ≤ lastPlace p) :
    ∃ n : ℤ, p = n * 2 ^ lastPlace q := by
  obtain ⟨d, hd⟩ := Int.le.dest h
  refine ⟨roundTiesEven (p / 2 ^ lastPlace p) * 2 ^ d, ?_⟩
  have hpow : (2 : ℚ) ^ lastPlace p = 2 ^ d * 2 ^ lastPlace q := by
    rw [← hd, add_comm, zpow_add₀ two_ne_zero, zpow_natCast]
  calc p = roundTiesEven (p / 2 ^ lastPlace p) * 2 ^ lastPlace p := hp.symm
    _ = _ := by
      rw [hpow]
      push_cast
      ring

/-- **Rounding does not pass a number of the format.** -/
theorem roundFinite_le {q p : ℚ} (hp : roundFinite p = p) (h : q ≤ p) : roundFinite q ≤ p := by
  rcases eq_or_ne q 0 with rfl | hne
  · exact (roundFinite_of_div (n := 0) (by simp)).trans_le h
  rcases le_or_gt (lastPlace q) (lastPlace p) with hplace | hplace
  · obtain ⟨n, hn⟩ := exists_mul_lastPlace hp hplace
    have hdiv : q / 2 ^ lastPlace q ≤ n := (div_le_iff₀ (lastPlace_pos q)).2 (hn ▸ h)
    have hround := (roundTiesEven_mem (Int.floor_le _) hdiv).2
    calc roundFinite q = roundTiesEven (q / 2 ^ lastPlace q) * 2 ^ lastPlace q := rfl
      _ ≤ n * 2 ^ lastPlace q :=
          mul_le_mul_of_nonneg_right (by exact_mod_cast hround) (lastPlace_pos q).le
      _ = p := hn.symm
  · -- the last place of `q` is the larger one, so `q` is far below zero
    have hlt := lt_lastPlace p
    have hlog : Int.log 2 |q| = lastPlace q + 52 := by
      unfold lastPlace at hplace ⊢
      omega
    have hq : 0 < |q| := abs_pos.2 hne
    have hpow := Int.zpow_log_le_self (R := ℚ) (b := 2) one_lt_two hq
    rw [hlog, Nat.cast_ofNat, add_comm, zpow_add₀ two_ne_zero] at hpow
    have hstep : (2 : ℚ) ^ lastPlace p * 2 ≤ 2 ^ lastPlace q := by
      rw [← zpow_add_one₀ two_ne_zero]
      exact zpow_le_zpow_right₀ one_le_two (by omega)
    have hfar : |p| ≤ 2 ^ (52 : ℤ) * 2 ^ lastPlace q := by
      refine hlt.le.trans ?_
      calc (2 : ℚ) ^ (53 : ℤ) * 2 ^ lastPlace p = 2 ^ (52 : ℤ) * (2 ^ lastPlace p * 2) := by
            rw [show (53 : ℤ) = 52 + 1 by norm_num, zpow_add₀ two_ne_zero, zpow_one]
            ring
        _ ≤ _ := mul_le_mul_of_nonneg_left hstep (by positivity)
    have hneg : q ≤ -(2 ^ (52 : ℤ) * 2 ^ lastPlace q) := by
      rcases le_or_gt q 0 with hsign | hsign
      · rw [abs_of_nonpos hsign] at hpow
        linarith
      · rw [abs_of_pos hsign] at hpow hq
        -- a positive `q` would not have the longer last place
        exact absurd (lastPlace_mono (by rwa [abs_of_pos hsign])
          (by rw [abs_of_pos hsign, abs_of_pos (hsign.trans_le h)]; exact h)) (not_le.2 hplace)
    have hdiv : q / 2 ^ lastPlace q ≤ ((-2 ^ 52 : ℤ) : ℚ) := by
      rw [div_le_iff₀ (lastPlace_pos q)]
      push_cast
      linarith
    have hround := (roundTiesEven_mem (Int.floor_le _) hdiv).2
    calc roundFinite q = roundTiesEven (q / 2 ^ lastPlace q) * 2 ^ lastPlace q := rfl
      _ ≤ ((-2 ^ 52 : ℤ) : ℚ) * 2 ^ lastPlace q :=
          mul_le_mul_of_nonneg_right (by exact_mod_cast hround) (lastPlace_pos q).le
      _ = -(2 ^ (52 : ℤ) * 2 ^ lastPlace q) := by
          push_cast
          norm_num
      _ ≤ -|p| := neg_le_neg hfar
      _ ≤ p := neg_abs_le p

theorem lastPlace_neg (q : ℚ) : lastPlace (-q) = lastPlace q := by
  unfold lastPlace
  rw [abs_neg]

@[simp] theorem roundFinite_negate (q : ℚ) : roundFinite (-q) = -roundFinite q := by
  unfold roundFinite
  rw [lastPlace_neg, neg_div, roundTiesEven_neg, Int.cast_neg, neg_mul]

theorem le_roundFinite {q p : ℚ} (hp : roundFinite p = p) (h : p ≤ q) : p ≤ roundFinite q := by
  have hneg : roundFinite (-q) ≤ -p :=
    roundFinite_le (by rw [roundFinite_negate, hp]) (neg_le_neg h)
  rw [roundFinite_negate] at hneg
  exact neg_le_neg_iff.1 hneg

theorem roundFinite_zero : roundFinite 0 = 0 := roundFinite_of_div (n := 0) (by simp)

/-- An integer is rounded to an integer. -/
theorem exists_roundFinite_natCast (n : ℕ) : ∃ m : ℕ, roundFinite n = m := by
  rcases le_or_gt (lastPlace n) 0 with hplace | hplace
  · obtain ⟨d, hd⟩ := Int.le.dest hplace
    refine ⟨n, roundFinite_of_div (n := n * 2 ^ d) ?_⟩
    rw [show lastPlace (n : ℚ) = -(d : ℤ) by omega, zpow_neg, div_inv_eq_mul, zpow_natCast]
    push_cast
    rfl
  · obtain ⟨d, hd⟩ := Int.eq_ofNat_of_zero_le hplace.le
    have hround : (0 : ℤ) ≤ roundTiesEven (n / 2 ^ lastPlace n) :=
      (roundTiesEven_mem (by push_cast; positivity) (Int.le_ceil _)).1
    obtain ⟨m, hm⟩ := Int.eq_ofNat_of_zero_le hround
    refine ⟨m * 2 ^ d, ?_⟩
    unfold roundFinite
    rw [hm, hd, zpow_natCast]
    push_cast
    rfl

namespace Number

theorem round_le {q p : ℚ} (hp : Representable p) (h : q ≤ p) :
    (round q).le (.finite p hp) = true := by
  have hle := roundFinite_le hp.2 h
  unfold round
  split
  · exact decide_eq_true hle
  · next hrange =>
    have hbig : q < 0 := by
      by_contra hnonneg
      have hzero := le_roundFinite roundFinite_zero (not_lt.1 hnonneg)
      refine hrange ?_
      rw [abs_of_nonneg hzero]
      exact hle.trans_lt ((le_abs_self p).trans_lt hp.1)
    exact decide_eq_true hbig

theorem le_round {q p : ℚ} (hp : Representable p) (h : p ≤ q) :
    (finite p hp).le (round q) = true := by
  have hle := le_roundFinite hp.2 h
  unfold round
  split
  · exact decide_eq_true hle
  · next hrange =>
    have hbig : 0 ≤ q := by
      by_contra hneg
      have hzero := roundFinite_le roundFinite_zero (not_le.1 hneg).le
      refine hrange ?_
      rw [abs_of_nonpos hzero]
      exact (neg_le_neg hle).trans_lt ((neg_le_abs p).trans_lt hp.1)
    show (!decide (q < 0)) = true
    rw [decide_eq_false (not_lt.2 hbig)]
    rfl

/-! ## §2  Counts -/

/-- A whole number from zero on; infinity counts as one. -/
def isCount (value : Number) : Bool := value.floor.eq value && (ofInt 0).le value

theorem representable_natCast {n : ℕ} (h : n ≤ 2 ^ 53) : Representable (n : ℚ) := by
  have hrep := representable_intCast (n := n) (by
    rw [abs_of_nonneg n.cast_nonneg]
    exact_mod_cast h)
  rwa [Int.cast_natCast] at hrep

theorem ofInt_natCast {n : ℕ} (h : n ≤ 2 ^ 53) :
    ofInt n = .finite n (representable_natCast h) := by
  have hrep := representable_natCast h
  unfold ofInt
  simp only [Int.cast_natCast]
  exact round_eq_finite hrep

theorem representable_zero : Representable 0 := by
  simpa using representable_natCast (n := 0) (by norm_num)

theorem ofInt_zero : ofInt 0 = .finite 0 representable_zero := by
  have h := ofInt_natCast (n := 0) (by norm_num)
  simpa using h

@[simp] theorem isCount_infinity (negative : Bool) : (infinity negative).isCount = !negative := by
  unfold isCount
  rw [ofInt_zero]
  cases negative <;> rfl

theorem isCount_finite {q : ℚ} {h : Representable q} :
    (finite q h).isCount = true ↔ ∃ n : ℕ, q = n := by
  unfold isCount
  rw [Bool.and_eq_true, ofInt_zero]
  constructor
  · rintro ⟨hfloor, hle⟩
    have hq : 0 ≤ q := of_decide_eq_true hle
    obtain ⟨n, hn⟩ := Int.eq_ofNat_of_zero_le (Int.floor_nonneg.2 hq)
    obtain ⟨m, hm⟩ := exists_roundFinite_natCast n
    have hround : (round (n : ℚ)).eq (.finite q h) = true := by
      have hcast : ((⌊q⌋ : ℤ) : ℚ) = n := by exact_mod_cast congrArg Int.cast hn
      rw [← hcast]
      exact hfloor
    unfold round at hround
    split at hround
    · exact ⟨m, (of_decide_eq_true hround).symm.trans hm⟩
    · cases hround
  · rintro ⟨n, rfl⟩
    refine ⟨?_, decide_eq_true n.cast_nonneg⟩
    show (round ((⌊(n : ℚ)⌋ : ℤ) : ℚ)).eq _ = true
    rw [Int.floor_natCast, Int.cast_natCast, round_eq_finite h]
    exact decide_eq_true rfl

theorem isCount_round (n : ℕ) : (round (n : ℚ)).isCount = true := by
  unfold round
  split
  · exact isCount_finite.2 (exists_roundFinite_natCast n)
  · rw [decide_eq_false (not_lt.2 n.cast_nonneg), isCount_infinity]
    rfl

theorem isCount_ofInt (n : ℕ) : (ofInt n).isCount = true := by
  have h := isCount_round n
  rwa [← Int.cast_natCast] at h

/-- A count is a natural number or infinite. -/
theorem isCount_cases {value : Number} (h : value.isCount = true) :
    value = .infinity false ∨ ∃ (n : ℕ) (hn : Representable (n : ℚ)), value = .finite n hn := by
  cases value with
  | nan => cases h
  | infinity negative =>
      rw [isCount_infinity] at h
      cases negative with
      | true => cases h
      | false => exact .inl rfl
  | finite q hq =>
      obtain ⟨n, rfl⟩ := isCount_finite.1 h
      exact .inr ⟨n, hq, rfl⟩

theorem isCount_add {first second : Number} (hfirst : first.isCount = true)
    (hsecond : second.isCount = true) : (first.add second).isCount = true := by
  rcases isCount_cases hfirst with rfl | ⟨n, hn, rfl⟩
  · rcases isCount_cases hsecond with rfl | ⟨m, hm, rfl⟩ <;> exact isCount_infinity false
  · rcases isCount_cases hsecond with rfl | ⟨m, hm, rfl⟩
    · exact isCount_infinity false
    · show (round ((n : ℚ) + m)).isCount = true
      rw [← Nat.cast_add]
      exact isCount_round (n + m)

theorem le_infinity {value : Number} (h : value.isCount = true) :
    value.le (.infinity false) = true := by
  rcases isCount_cases h with rfl | ⟨n, hn, rfl⟩ <;> rfl

theorem add_zero_of_isCount {value : Number} (h : value.isCount = true) :
    value.add (.ofInt 0) = value := by
  rw [ofInt_zero]
  rcases isCount_cases h with rfl | ⟨n, hn, rfl⟩
  · rfl
  · show round ((n : ℚ) + 0) = _
    rw [add_zero]
    exact round_eq_finite hn

/-- A count below a rounded floor is below the floor. -/
theorem lt_of_lt_floor {k : ℕ} {r : ℚ} (hk : k ≤ 2 ^ 53)
    (h : (ofInt k).lt (round ((⌊r⌋ : ℤ) : ℚ)) = true) : (k : ℤ) < ⌊r⌋ := by
  by_contra hge
  rw [ofInt_natCast hk] at h
  have hround := round_le (representable_natCast hk)
    (q := ((⌊r⌋ : ℤ) : ℚ)) (by exact_mod_cast not_lt.1 hge)
  cases hr : round ((⌊r⌋ : ℤ) : ℚ) with
  | nan => rw [hr] at h; cases h
  | infinity negative =>
      rw [hr] at h hround
      cases negative with
      | false => cases hround
      | true => cases h
  | finite value hvalue =>
      rw [hr] at h hround
      exact absurd (of_decide_eq_true h) (not_lt.2 (of_decide_eq_true hround))

/-! ## §3  Spending within a remainder -/

theorem le_of_not_lt {first second : Number} (hfirst : first.isNan = false)
    (hsecond : second.isNan = false) (h : second.lt first = false) : first.le second = true := by
  cases first with
  | nan => cases hfirst
  | infinity negative =>
      cases second with
      | nan => cases hsecond
      | infinity negative' => cases negative <;> cases negative' <;> first | rfl | cases h
      | finite value _ => cases negative <;> first | rfl | cases h
  | finite value _ =>
      cases second with
      | nan => cases hsecond
      | infinity negative => cases negative <;> first | rfl | cases h
      | finite value' _ => exact decide_eq_true (not_lt.1 (of_decide_eq_false h))

/-- The smaller of two numbers is not above the second. -/
theorem min_le (first : Number) {second : Number} (hsecond : second.isNan = false) :
    (first.min second).le second = true := by
  have hself : second.le second = true :=
    le_of_not_lt hsecond hsecond (by
      cases second with
      | nan => rfl
      | infinity negative => cases negative <;> rfl
      | finite value _ => exact decide_eq_false (lt_irrefl value))
  unfold Number.min
  rw [hsecond]
  split
  · exact hself
  · next hfirst =>
    rw [if_neg Bool.false_ne_true]
    split
    · exact hself
    · next h => exact le_of_not_lt (Bool.eq_false_iff.2 hfirst) hsecond (Bool.eq_false_iff.2 h)

/-- **What is spent within an open remainder stays within a whole bound of the budget.** One unit
may be spent of a remainder below one. -/
theorem add_le_of_remaining {maximum bound consumed : Number} {k : ℕ}
    (hbound : bound.isCount = true) (hmaximum : maximum.le bound = true)
    (hconsumed : consumed.isCount = true) (hle : consumed.le bound = true)
    (hopen : (maximum.sub consumed).le (ofInt 0) = false) (hk : k ≤ 2 ^ 53)
    (hspent : k ≤ 1 ∨ (ofInt k).le (maximum.sub consumed).floor = true) :
    (consumed.add (ofInt k)).le bound = true := by
  rcases isCount_cases hbound with rfl | ⟨b, hb, rfl⟩
  · exact le_infinity (isCount_add hconsumed (isCount_ofInt k))
  rcases isCount_cases hconsumed with rfl | ⟨c, hc, rfl⟩
  · cases hle
  have hcb : c ≤ b := by exact_mod_cast of_decide_eq_true hle
  rw [ofInt_natCast hk] at hspent ⊢
  suffices hsum : c + k ≤ b by
    show (round ((c : ℚ) + k)).le _ = true
    exact round_le hb (by exact_mod_cast hsum)
  cases maximum with
  | nan => cases hmaximum
  | infinity negative =>
      cases negative with
      | false => cases hmaximum
      | true =>
          rw [ofInt_zero] at hopen
          cases hopen
  | finite m hm =>
      have hmb : m ≤ b := of_decide_eq_true hmaximum
      change (round (m - c)).le (ofInt 0) = false at hopen
      change k ≤ 1 ∨ (finite k _).le (round (m - c)).floor = true at hspent
      have hpos : (c : ℚ) < m := by
        by_contra hge
        have hround := round_le representable_zero (sub_nonpos.2 (not_lt.1 hge))
        rw [← ofInt_zero, hopen] at hround
        cases hround
      have hroom : c + 1 ≤ b := by exact_mod_cast hpos.trans_le hmb
      rcases hspent with hone | hfloor
      · omega
      by_contra hover
      -- the remainder is then below the spent units, and so is its rounded value
      have hroomRep : Representable ((b - c : ℕ) : ℚ) := representable_natCast (by omega)
      have hround := round_le (q := m - c) hroomRep (by
        rw [Nat.cast_sub hcb]
        linarith)
      cases hr : round (m - c) with
      | nan => rw [hr] at hround; cases hround
      | infinity negative =>
          rw [hr] at hround hfloor
          cases negative with
          | false => cases hround
          | true => cases hfloor
      | finite r hrRep =>
          rw [hr] at hround hfloor
          have hr' : r ≤ ((b - c : ℕ) : ℚ) := of_decide_eq_true hround
          have hfloorLe : ((⌊r⌋ : ℤ) : ℚ) ≤ ((b - c : ℕ) : ℚ) := (Int.floor_le r).trans hr'
          have hfl := round_le hroomRep hfloorLe
          change (finite (k : ℚ) _).le (round ((⌊r⌋ : ℤ) : ℚ)) = true at hfloor
          cases hf : round ((⌊r⌋ : ℤ) : ℚ) with
          | nan => rw [hf] at hfl; cases hfl
          | infinity negative =>
              rw [hf] at hfl hfloor
              cases negative with
              | false => cases hfl
              | true => cases hfloor
          | finite f hfRep =>
              rw [hf] at hfl hfloor
              have hkb : (k : ℚ) ≤ ((b - c : ℕ) : ℚ) :=
                le_trans (of_decide_eq_true hfloor) (of_decide_eq_true hfl)
              have : k ≤ b - c := by exact_mod_cast hkb
              omega

end Number

end Binary64
