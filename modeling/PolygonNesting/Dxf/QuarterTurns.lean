import PolygonNesting.Lib.NumberRounding

/-!
# Steps of a quarter turn

Adding 90 to a double, again and again.  Up to 2^60 every step goes on, by 96, 64 or 128 where
doubles are 32, 64 or 128 apart; from there no step does.  Where they are 64 apart, five steps
are less than a turn.
-/

namespace PolygonNesting.Dxf

open Binary64

/-! ## §1  One step -/

/-- The double after a quarter turn. -/
def carry (a : ℚ) : ℚ := roundFinite (a + 90)

variable {a c f : ℚ} {e : ℤ}

theorem roundFinite_carry (a : ℚ) : roundFinite (carry a) = carry a := roundFinite_roundFinite _

theorem le_carry (h : roundFinite a = a) : a ≤ carry a := le_roundFinite h (by linarith)

theorem roundFinite_iterate_carry (h : roundFinite f = f) (n : ℕ) :
    roundFinite (carry^[n] f) = carry^[n] f := by
  cases n with
  | zero => exact h
  | succ n =>
      rw [Function.iterate_succ_apply']
      exact roundFinite_carry _

theorem iterate_carry_mono (h : roundFinite f = f) : Monotone fun n => carry^[n] f := by
  refine monotone_nat_of_le_succ fun n => ?_
  rw [Function.iterate_succ_apply']
  exact le_carry (roundFinite_iterate_carry h n)

/-- A large double is a multiple of the distance of doubles. -/
theorem exists_mul_of_le (he : -1074 ≤ e) (h : roundFinite a = a) (hlow : 2 ^ (e + 52) ≤ |a|) :
    ∃ m : ℤ, a = m * 2 ^ e := by
  have hpos : (0 : ℚ) < 2 ^ (e + 52) := by positivity
  have hplace : lastPlace (2 ^ (e + 52)) = e := by
    refine lastPlace_eq he ?_ ?_
    · rw [abs_of_pos hpos]
    · rw [abs_of_pos hpos]
      exact zpow_lt_zpow_right₀ one_lt_two (by omega)
  have hle : lastPlace (2 ^ (e + 52)) ≤ lastPlace a :=
    lastPlace_mono (abs_pos.2 hpos.ne') (by rwa [abs_of_pos hpos])
  obtain ⟨m, hm⟩ := exists_mul_lastPlace h hle
  rw [hplace] at hm
  exact ⟨m, hm⟩

/-- A step among doubles of one distance. -/
theorem carry_eq (he : -1074 ≤ e) (hsum : ∃ n : ℤ, a + c = n * 2 ^ e)
    (hlow : 2 ^ (e + 52) ≤ |a + 90|) (hhigh : |a + 90| < 2 ^ (e + 53))
    (hc : |90 - c| < 2 ^ e / 2) : carry a = a + c := by
  obtain ⟨n, hn⟩ := hsum
  have hplace := lastPlace_eq he hlow hhigh
  rw [hn, ← hplace]
  refine roundFinite_eq_mul ?_
  rw [hplace, ← hn]
  rwa [show a + 90 - (a + c) = 90 - c by ring]

/-- Steps among doubles of one distance. -/
theorem iterate_carry_eq (he : -1074 ≤ e) (hf : ∃ m : ℤ, f = m * 2 ^ e)
    (hstep : ∃ d : ℤ, c = d * 2 ^ e) (hc : |90 - c| < 2 ^ e / 2) {n : ℕ}
    (hzone : ∀ i < n, 2 ^ (e + 52) ≤ |f + i * c + 90| ∧ |f + i * c + 90| < 2 ^ (e + 53)) :
    carry^[n] f = f + n * c := by
  induction n with
  | zero => simp
  | succ n ih =>
      rw [Function.iterate_succ_apply', ih fun i hi => hzone i (by omega)]
      obtain ⟨m, hm⟩ := hf
      obtain ⟨d, hd⟩ := hstep
      rw [carry_eq he ⟨m + n * d + d, ?_⟩ (hzone n (by omega)).1 (hzone n (by omega)).2 hc]
      · push_cast
        ring
      · push_cast
        rw [hm, hd]
        ring

theorem eight_le_lastPlace (h : 2 ^ 60 ≤ |a|) : 8 ≤ lastPlace a := by
  have hpos : 0 < |a| := lt_of_lt_of_le (by positivity) h
  have hlog := (Int.zpow_le_iff_le_log (b := 2) (x := 60) one_lt_two hpos).1 (by exact_mod_cast h)
  unfold lastPlace
  omega

/-- A quarter turn is less than half the distance of doubles. -/
theorem quarterTurn_lt (h : 2 ^ 60 ≤ |a|) : (90 : ℚ) < 2 ^ lastPlace a / 2 := by
  have hpow : (2 : ℚ) ^ (8 : ℤ) ≤ 2 ^ lastPlace a :=
    zpow_le_zpow_right₀ one_le_two (eight_le_lastPlace h)
  norm_num at hpow
  linarith

/-- From 2^60 on no step goes on. -/
theorem carry_of_ge (h : roundFinite a = a) (hlarge : 2 ^ 60 ≤ a) : carry a = a := by
  have habs : 2 ^ 60 ≤ |a| := hlarge.trans (le_abs_self a)
  have habs' : 2 ^ 60 ≤ |a + 90| := (by linarith : (2 : ℚ) ^ 60 ≤ a + 90).trans (le_abs_self _)
  have hstep := quarterTurn_lt habs
  have hpos := lastPlace_pos a
  refine roundFinite_eq_of_near h (lastPlace_le ((eight_le_lastPlace habs).trans' (by norm_num))
    (abs_pos.1 (lt_of_lt_of_le (by positivity) habs')) ?_) ?_
  · -- the last double of a distance is a distance before the next power
    obtain ⟨n, hn⟩ := exists_mul_lastPlace h le_rfl
    have hlt := (le_abs_self a).trans_lt (lt_lastPlace a)
    have hn' : n + 1 ≤ 2 ^ 53 := by
      have hcast : (n : ℚ) < ((2 ^ 53 : ℤ) : ℚ) := by
        refine lt_of_mul_lt_mul_right ?_ hpos.le
        rw [← hn]
        exact_mod_cast hlt
      exact_mod_cast hcast
    have hcast : ((n : ℚ) + 1) ≤ 2 ^ 53 := by exact_mod_cast hn'
    have hmul := mul_le_mul_of_nonneg_right hcast hpos.le
    rw [add_mul, ← hn, one_mul] at hmul
    rw [abs_of_nonneg (by linarith), add_comm (lastPlace a), zpow_add₀ two_ne_zero]
    norm_cast at hmul ⊢
    push_cast at hmul ⊢
    linarith
  · rw [add_sub_cancel_left, abs_of_pos (by norm_num)]
    exact quarterTurn_lt habs'

/-- Below -2^60 no step goes on. -/
theorem carry_of_lt (h : roundFinite a = a) (hlarge : a < -2 ^ 60) : carry a = a := by
  have habs : 2 ^ 60 ≤ |a| := (by linarith : (2 : ℚ) ^ 60 ≤ -a).trans (neg_le_abs a)
  have habs' : 2 ^ 60 ≤ |a + 90| := by
    obtain ⟨m, hm⟩ := exists_mul_of_le (e := 8) (by norm_num) h (by norm_num at habs ⊢; exact habs)
    have hm' : m < -2 ^ 52 := by
      have hcast : (m : ℚ) < ((-2 ^ 52 : ℤ) : ℚ) := by
        push_cast
        norm_num at hm hlarge ⊢
        linarith
      exact_mod_cast hcast
    have hcast : (m : ℚ) ≤ -2 ^ 52 - 1 := by exact_mod_cast Int.le_sub_one_of_lt hm'
    refine le_trans ?_ (neg_le_abs (a + 90))
    norm_num at hm hcast ⊢
    linarith
  have hpos : 0 < |a + 90| := lt_of_lt_of_le (by positivity) habs'
  refine roundFinite_eq_of_near h (lastPlace_mono hpos ?_) ?_
  · have hneg : a + 90 < 0 := by linarith
    rw [abs_of_neg hneg, abs_of_neg (by linarith : a < 0)]
    linarith
  · rw [add_sub_cancel_left, abs_of_pos (by norm_num)]
    exact quarterTurn_lt habs'

theorem roundFinite_two_pow_sixty : roundFinite (2 ^ 60) = 2 ^ 60 := by
  have := roundFinite_of_bits (m := 1) (e := 60) (by norm_num) (by norm_num)
  norm_num at this ⊢
  exact this

/-- Up to 2^60 no step goes beyond it. -/
theorem carry_le (h : a ≤ 2 ^ 60) : carry a ≤ 2 ^ 60 := by
  rcases le_or_gt (a + 90) (2 ^ 60) with hle | hlt
  · exact roundFinite_le roundFinite_two_pow_sixty hle
  · have habs : |a + 90| = a + 90 := abs_of_pos (by linarith)
    refine (roundFinite_eq_of_near roundFinite_two_pow_sixty (lastPlace_le ?_ ?_ ?_) ?_).le
    · exact (eight_le_lastPlace (by norm_num)).trans' (by norm_num)
    · linarith
    · have hplace := eight_le_lastPlace (a := 2 ^ 60) (by norm_num)
      have hpow : (2 : ℚ) ^ (8 + 53 : ℤ) ≤ 2 ^ (lastPlace (2 ^ 60) + 53) :=
        zpow_le_zpow_right₀ one_le_two (by omega)
      refine lt_of_lt_of_le ?_ hpow
      rw [habs]
      norm_num at h ⊢
      linarith
    · have := quarterTurn_lt (a := a + 90) (by rw [habs]; exact hlt.le)
      rw [abs_of_pos (by linarith)]
      linarith

theorem iterate_carry_le (h : f ≤ 2 ^ 60) (n : ℕ) : carry^[n] f ≤ 2 ^ 60 := by
  induction n with
  | zero => exact h
  | succ n ih =>
      rw [Function.iterate_succ_apply']
      exact carry_le ih

/-! ## §2  Five steps -/

/-- How far five steps carry where doubles are 64 apart and at the borders; elsewhere it is more
than any sweep. -/
def fiveTurns (first : ℚ) : ℚ :=
  if (2 ^ 58 ≤ first ∧ first ≤ 2 ^ 59 - 320) ∨ (-2 ^ 59 ≤ first ∧ first ≤ -2 ^ 58 - 384) then 320
  else if first = 2 ^ 58 - 32 ∨ first = -2 ^ 58 - 320 then 352
  else if first = 2 ^ 58 - 128 ∨ first = 2 ^ 59 - 256 ∨ first = -2 ^ 58 - 256 ∨
      first = -2 ^ 59 - 128 then 384
  else if first = 2 ^ 58 - 224 then 416
  else if first = -2 ^ 59 - 256 then 448
  else 640

/-- A bound on limits, from the bounds on the quotient of an angle and on the limit's size. -/
def limitBound (m e : ℕ) (k : ℤ) : ℚ := 90 * k + 90 * 2 ^ (m - 54 : ℤ) + 360 + 2 ^ e / 2

/-- Five steps from the double of a multiple of 90 carry as the table says, or they and the table
pass the bound on limits. -/
def Settles (m e : ℕ) (k : ℤ) : Prop :=
  carry^[5] (roundFinite (90 * k)) = roundFinite (90 * k) + fiveTurns (roundFinite (90 * k)) ∨
    (limitBound m e k < carry^[5] (roundFinite (90 * k)) ∧
      limitBound m e k < roundFinite (90 * k) + fiveTurns (roundFinite (90 * k)))

instance decidableSettles (m e : ℕ) (k : ℤ) : Decidable (Settles m e k) :=
  inferInstanceAs (Decidable (_ ∨ _))

/-! Where the distance of doubles changes, the few multiples of 90 are computed. -/

theorem settles_at_57 : ∀ i < 8, Settles 51 5 (1601279867509503 + (i : ℕ)) := by decide +kernel

theorem settles_at_58 : ∀ i < 8, Settles 52 6 (3202559735019013 + (i : ℕ)) := by decide +kernel

theorem settles_at_59 : ∀ i < 8, Settles 53 7 (6405119470038033 + (i : ℕ)) := by decide +kernel

theorem settles_at_neg_57 : ∀ i < 8, Settles 51 5 (-1601279867509516 + (i : ℕ)) := by
  decide +kernel

theorem settles_at_neg_58 : ∀ i < 8, Settles 52 6 (-3202559735019026 + (i : ℕ)) := by
  decide +kernel

theorem settles_at_neg_59 : ∀ i < 8, Settles 53 7 (-6405119470038046 + (i : ℕ)) := by
  decide +kernel

/-! Elsewhere the steps are of one size. -/

theorem fiveTurns_of_slow
    (h : (2 ^ 58 ≤ f ∧ f ≤ 2 ^ 59 - 320) ∨ (-2 ^ 59 ≤ f ∧ f ≤ -2 ^ 58 - 384)) :
    fiveTurns f = 320 := if_pos h

theorem fiveTurns_of_fast
    (h : (-2 ^ 58 - 128 ≤ f ∧ f < 2 ^ 58 - 224) ∨ 2 ^ 59 - 256 < f ∨ f < -2 ^ 59 - 256) :
    fiveTurns f = 640 := by
  unfold fiveTurns
  rw [if_neg, if_neg, if_neg, if_neg, if_neg]
  · rintro rfl
    norm_num at h
  · rintro rfl
    norm_num at h
  · rintro (rfl | rfl | rfl | rfl) <;> norm_num at h
  · rintro (rfl | rfl) <;> norm_num at h
  · rintro (⟨h1, h2⟩ | ⟨h1, h2⟩) <;> rcases h with ⟨h3, h4⟩ | h | h <;> linarith

theorem iterate_five (he : -1074 ≤ e) (hrep : roundFinite f = f) (hc0 : 0 ≤ c)
    (hstep : ∃ d : ℤ, c = d * 2 ^ e) (hc : |90 - c| < 2 ^ e / 2)
    (hf : (2 ^ (e + 52) ≤ f ∧ f + 4 * c + 90 < 2 ^ (e + 53)) ∨
      (-2 ^ (e + 53) ≤ f ∧ f + 4 * c + 90 ≤ -2 ^ (e + 52))) :
    carry^[5] f = f + 5 * c := by
  have hpow : (0 : ℚ) < 2 ^ (e + 52) := by positivity
  have hmul : ∃ m : ℤ, f = m * 2 ^ e := by
    refine exists_mul_of_le he hrep ?_
    rcases hf with ⟨h1, -⟩ | ⟨-, h2⟩
    · exact h1.trans (le_abs_self f)
    · exact (by linarith : 2 ^ (e + 52) ≤ -f).trans (neg_le_abs f)
  refine iterate_carry_eq he hmul hstep hc fun i hi => ?_
  have hi' : (i : ℚ) ≤ 4 := by exact_mod_cast Nat.le_of_lt_succ hi
  have hlow : 0 ≤ i * c := mul_nonneg (Nat.cast_nonneg i) hc0
  have hhigh : i * c ≤ 4 * c := mul_le_mul_of_nonneg_right hi' hc0
  rcases hf with ⟨h1, h2⟩ | ⟨h1, h2⟩
  · rw [abs_of_nonneg (by linarith)]
    constructor <;> linarith
  · rw [abs_of_neg (by linarith)]
    constructor <;> linarith

theorem roundFinite_pow {n : ℕ} (sign : ℤ) (h : |sign| = 1) :
    roundFinite (sign * 2 ^ n) = sign * 2 ^ n := by
  have := roundFinite_of_bits (m := sign) (e := n) (by rw [h]; norm_num) (by omega)
  simpa using this

/-- The double of a multiple of 90, with the powers of two below it. -/
theorem roundFinite_multiple {k : ℤ} (he : -1074 ≤ e) (hk : |90 * (k : ℚ)| ≤ 2 ^ (e + 53)) :
    ∃ f : ℚ, roundFinite (90 * k) = f ∧ roundFinite f = f ∧
      (f - 2 ^ e / 2 ≤ 90 * k ∧ 90 * k ≤ f + 2 ^ e / 2) ∧
      (∀ n : ℕ, 2 ^ n ≤ 90 * (k : ℚ) → 2 ^ n ≤ f) ∧
        ∀ n : ℕ, -2 ^ n ≤ 90 * (k : ℚ) → -2 ^ n ≤ f := by
  have hnear := abs_le.1 (abs_sub_roundFinite_le he hk)
  refine ⟨_, rfl, roundFinite_roundFinite _, ⟨by linarith, by linarith⟩, fun n hn => ?_,
    fun n hn => ?_⟩
  · exact le_roundFinite (by simpa using roundFinite_pow (n := n) 1 rfl) hn
  · exact le_roundFinite (by simpa using roundFinite_pow (n := n) (-1) rfl) hn

/-- Where doubles are at most 16 apart. -/
theorem carry_near (h : |a + 90| ≤ 2 ^ 57) : a + 82 ≤ carry a ∧ carry a ≤ a + 98 := by
  have hnear := abs_le.1 (abs_sub_roundFinite_le (q := a + 90) (e := 4) (by norm_num)
    (by norm_num at h ⊢; exact h))
  norm_num at hnear
  unfold carry
  constructor <;> linarith

theorem iterate_near (hf : -2 ^ 57 ≤ f) (hf' : f ≤ 2 ^ 57 - 500) {n : ℕ} (hn : n ≤ 5) :
    f + 82 * n ≤ carry^[n] f ∧ carry^[n] f ≤ f + 98 * n := by
  induction n with
  | zero => simp
  | succ n ih =>
      obtain ⟨hlow, hhigh⟩ := ih (by omega)
      have hn' : (n : ℚ) ≤ 4 := by exact_mod_cast Nat.le_of_lt_succ hn
      have hn0 : (0 : ℚ) ≤ n := Nat.cast_nonneg n
      rw [Function.iterate_succ_apply']
      obtain ⟨hlow', hhigh'⟩ := carry_near (a := carry^[n] f)
        (abs_le.2 ⟨by linarith, by linarith⟩)
      push_cast
      constructor <;> linarith

theorem settles_near {k : ℤ} (h : -2 ^ 57 + 50 ≤ 90 * k ∧ 90 * k ≤ 2 ^ 57 - 600) :
    Settles 51 4 k := by
  have hk : -2 ^ 57 + 50 ≤ 90 * (k : ℚ) ∧ 90 * (k : ℚ) ≤ 2 ^ 57 - 600 := by exact_mod_cast h
  obtain ⟨f, hf, -, hnear, -, -⟩ := roundFinite_multiple (k := k) (e := 4) (by norm_num)
    (abs_le.2 ⟨by norm_num at hk ⊢; linarith, by norm_num at hk ⊢; linarith⟩)
  unfold Settles limitBound
  norm_num at hnear
  rw [hf]
  right
  have hfive := (iterate_near (f := f) (by linarith) (by linarith) (n := 5) le_rfl).1
  rw [fiveTurns_of_fast (.inl ⟨by linarith, by linarith⟩)]
  constructor <;> norm_num at hfive ⊢ <;> linarith

/-- Where doubles are 32 apart. -/
theorem settles_57 {k : ℤ}
    (h : (2 ^ 57 ≤ 90 * k ∧ 90 * k ≤ 2 ^ 58 - 600) ∨
      (-2 ^ 58 ≤ 90 * k ∧ 90 * k ≤ -2 ^ 57 - 600)) : Settles 52 5 k := by
  have hk : (2 ^ 57 ≤ 90 * (k : ℚ) ∧ 90 * (k : ℚ) ≤ 2 ^ 58 - 600) ∨
      (-2 ^ 58 ≤ 90 * (k : ℚ) ∧ 90 * (k : ℚ) ≤ -2 ^ 57 - 600) := by exact_mod_cast h
  obtain ⟨f, hf, hrep, hnear, hpos, hneg⟩ := roundFinite_multiple (k := k) (e := 5)
    (by norm_num) (by
      rw [abs_le]
      rcases hk with hk | hk <;> constructor <;> norm_num at hk ⊢ <;> linarith)
  have hfrom : 2 ^ 57 ≤ f ∧ f ≤ 2 ^ 58 - 584 ∨ -2 ^ 58 ≤ f ∧ f ≤ -2 ^ 57 - 584 := by
    norm_num at hnear
    rcases hk with hk | hk
    · exact .inl ⟨hpos 57 hk.1, by linarith⟩
    · exact .inr ⟨hneg 58 hk.1, by linarith⟩
  unfold Settles limitBound
  rw [hf]
  right
  rw [iterate_five (e := 5) (c := 96) (by norm_num) hrep (by norm_num) ⟨3, by norm_num⟩
    (by norm_num), fiveTurns_of_fast]
  · norm_num at hnear
    constructor <;> norm_num <;> linarith
  · left
    rcases hfrom with hfrom | hfrom <;> constructor <;> linarith
  · norm_num at hfrom ⊢
    rcases hfrom with hfrom | hfrom
    · exact .inl ⟨hfrom.1, by linarith⟩
    · exact .inr ⟨hfrom.1, by linarith⟩

/-- Where doubles are 64 apart, five steps carry less than a turn. -/
theorem settles_58 {k : ℤ}
    (h : (2 ^ 58 ≤ 90 * k ∧ 90 * k ≤ 2 ^ 59 - 600) ∨
      (-2 ^ 59 ≤ 90 * k ∧ 90 * k ≤ -2 ^ 58 - 600)) (m e : ℕ) : Settles m e k := by
  have hk : (2 ^ 58 ≤ 90 * (k : ℚ) ∧ 90 * (k : ℚ) ≤ 2 ^ 59 - 600) ∨
      (-2 ^ 59 ≤ 90 * (k : ℚ) ∧ 90 * (k : ℚ) ≤ -2 ^ 58 - 600) := by exact_mod_cast h
  obtain ⟨f, hf, hrep, hnear, hpos, hneg⟩ := roundFinite_multiple (k := k) (e := 6)
    (by norm_num) (by
      rw [abs_le]
      rcases hk with hk | hk <;> constructor <;> norm_num at hk ⊢ <;> linarith)
  have hfrom : 2 ^ 58 ≤ f ∧ f ≤ 2 ^ 59 - 568 ∨ -2 ^ 59 ≤ f ∧ f ≤ -2 ^ 58 - 568 := by
    norm_num at hnear
    rcases hk with hk | hk
    · exact .inl ⟨hpos 58 hk.1, by linarith⟩
    · exact .inr ⟨hneg 59 hk.1, by linarith⟩
  unfold Settles
  rw [hf]
  left
  rw [iterate_five (e := 6) (c := 64) (by norm_num) hrep (by norm_num) ⟨1, by norm_num⟩
    (by norm_num), fiveTurns_of_slow]
  · norm_num
  · rcases hfrom with hfrom | hfrom
    · exact .inl ⟨hfrom.1, by linarith⟩
    · exact .inr ⟨hfrom.1, by linarith⟩
  · norm_num at hfrom ⊢
    rcases hfrom with hfrom | hfrom
    · exact .inl ⟨hfrom.1, by linarith⟩
    · exact .inr ⟨hfrom.1, by linarith⟩

theorem carry_59 (hrep : roundFinite a = a) (hlow : 2 ^ 59 ≤ a) (hhigh : a < 2 ^ 60) :
    carry a = a + 128 := by
  obtain ⟨m, hm⟩ := exists_mul_of_le (e := 7) (by norm_num) hrep (by
    norm_num
    exact (by linarith : (576460752303423488 : ℚ) ≤ a).trans (le_abs_self a))
  have hm' : m < 2 ^ 53 := by
    have hcast : (m : ℚ) < ((2 ^ 53 : ℤ) : ℚ) := by
      push_cast
      norm_num at hm hhigh ⊢
      linarith
    exact_mod_cast hcast
  have hcast : (m : ℚ) ≤ 2 ^ 53 - 1 := by exact_mod_cast Int.le_sub_one_of_lt hm'
  have hlast : a + 90 < 2 ^ 60 := by
    norm_num at hm hcast ⊢
    linarith
  refine carry_eq (e := 7) (by norm_num) ⟨m + 1, ?_⟩ ?_ ?_ (by norm_num)
  · push_cast
    rw [hm]
    norm_num
    ring
  · rw [abs_of_nonneg (by linarith)]
    norm_num
    linarith
  · rw [abs_of_nonneg (by linarith)]
    norm_num
    linarith

/-- Where doubles are 128 apart, the steps go on to 2^60. -/
theorem iterate_59 (hrep : roundFinite f = f) (hlow : 2 ^ 59 ≤ f) (n : ℕ) :
    f + 128 * n ≤ carry^[n] f ∨ 2 ^ 60 ≤ carry^[n] f := by
  induction n with
  | zero => simp
  | succ n ih =>
      have hmono : f ≤ carry^[n] f := iterate_carry_mono hrep (Nat.zero_le n)
      have hrep' := roundFinite_iterate_carry hrep n
      rw [Function.iterate_succ_apply']
      rcases lt_or_ge (carry^[n] f) (2 ^ 60) with hlt | hge
      · left
        rw [carry_59 hrep' (hlow.trans hmono) hlt]
        push_cast
        rcases ih with ih | ih <;> linarith
      · exact .inr (hge.trans (le_carry hrep'))

/-- Where doubles are 128 apart. -/
theorem settles_59 {k : ℤ} (hlow : 2 ^ 59 ≤ 90 * k) (hhigh : 90 * k < 2 ^ 60) :
    (Settles 54 7 k ∧ 90 * k + 450 ≤ 2 ^ 60) ∨
      (2 ^ 60 ≤ carry^[5] (roundFinite (90 * k)) ∧
        2 ^ 60 ≤ roundFinite (90 * k) + fiveTurns (roundFinite (90 * k))) := by
  have hk : 2 ^ 59 ≤ 90 * (k : ℚ) := by exact_mod_cast hlow
  have hk' : 90 * (k : ℚ) < 2 ^ 60 := by exact_mod_cast hhigh
  obtain ⟨f, hf, hrep, hnear, hpos, -⟩ := roundFinite_multiple (k := k) (e := 7)
    (by norm_num) (abs_le.2 ⟨by norm_num at hk ⊢; linarith, by norm_num at hk' ⊢; linarith⟩)
  have hfrom := hpos 59 hk
  norm_num at hnear
  unfold Settles limitBound
  rw [hf, fiveTurns_of_fast (.inr (.inl (by linarith)))]
  rcases lt_or_ge (f + 640) (2 ^ 60) with hlt | hge
  · refine .inl ⟨.inr ?_, ?_⟩
    · have hfive := iterate_59 hrep hfrom 5
      rcases hfive with hfive | hfive <;> norm_num at hfive ⊢ <;> constructor <;> linarith
    · have hsum : 90 * (k : ℚ) + 450 ≤ 2 ^ 60 := by linarith
      exact_mod_cast hsum
  · refine .inr ⟨?_, hge⟩
    rcases iterate_59 hrep hfrom 5 with hfive | hfive
    · norm_num at hfive hge ⊢
      linarith
    · exact hfive

/-- Where negative doubles are 128 apart, from the double -2^60 on. -/
theorem settles_neg_59 {k : ℤ} (hlow : -2 ^ 60 ≤ roundFinite (90 * k))
    (hhigh : 90 * k ≤ -2 ^ 59 - 700) : Settles 54 7 k := by
  have hk : 90 * (k : ℚ) ≤ -2 ^ 59 - 700 := by exact_mod_cast hhigh
  have hrep : roundFinite (roundFinite (90 * (k : ℚ))) = roundFinite (90 * k) :=
    roundFinite_roundFinite _
  have hnear : roundFinite (90 * k) - 64 ≤ -2 ^ 59 - 700 ∧
      90 * (k : ℚ) ≤ roundFinite (90 * k) + 64 := by
    rcases le_or_gt (-2 ^ 60) (90 * (k : ℚ)) with hin | hout
    · obtain ⟨f, hf, -, hnear, -, -⟩ := roundFinite_multiple (k := k) (e := 7) (by norm_num)
        (abs_le.2 ⟨by norm_num at hin ⊢; linarith, by norm_num at hk ⊢; linarith⟩)
      norm_num at hnear
      rw [hf]
      exact ⟨by linarith, by linarith⟩
    · have hround := roundFinite_le (by simpa using roundFinite_pow (n := 60) (-1) rfl) hout.le
      exact ⟨by linarith, by linarith⟩
  unfold Settles limitBound
  generalize roundFinite (90 * (k : ℚ)) = f at hnear hlow hrep ⊢
  right
  rw [iterate_five (e := 7) (c := 128) (by norm_num) hrep (by norm_num) ⟨1, by norm_num⟩
    (by norm_num), fiveTurns_of_fast (.inr (.inr (by linarith)))]
  · constructor <;> norm_num <;> linarith
  · norm_num at hlow hnear ⊢
    exact .inr ⟨hlow, by linarith⟩

/-! ## §3  Every first angle -/

/-- The bounds on a multiple of 90 under which the limits have their bound. -/
structure Bounded (m e : ℕ) (k : ℤ) : Prop where
  place : m ≤ 54
  low : -2 ^ m < k
  high : k < 2 ^ m
  sumLow : -2 ^ (e + 53) ≤ 90 * k + 360
  sumHigh : 90 * k + 450 ≤ 2 ^ (e + 53)

/-- **A limit has its bound.** -/
theorem Bounded.limit_le {m e : ℕ} {k : ℤ} (h : Bounded m e k) {s w : ℚ}
    (hk : ⌈roundFinite (s / 90)⌉ = k) (hw : w ≤ 360) :
    roundFinite (s + w) ≤ limitBound m e k := by
  have hpow : (2 : ℚ) ^ (m - 54 : ℤ) ≤ 1 :=
    zpow_le_one_of_nonpos₀ one_le_two (by have := h.place; omega)
  have hpow0 : (0 : ℚ) < 2 ^ (m - 54 : ℤ) := by positivity
  have hlow : -2 ^ m ≤ (k : ℚ) - 1 := by exact_mod_cast Int.le_sub_one_of_lt h.low
  have hhigh : (k : ℚ) < 2 ^ m := by exact_mod_cast h.high
  have hsumLow : -2 ^ (e + 53) ≤ 90 * (k : ℚ) + 360 := by exact_mod_cast h.sumLow
  have hsumHigh : 90 * (k : ℚ) + 450 ≤ 2 ^ (e + 53) := by exact_mod_cast h.sumHigh
  obtain ⟨hceil, hceil'⟩ := Int.ceil_eq_iff.1 hk
  -- the quotient is within the bounds that its rounding keeps
  have hquotient : |s / 90| ≤ 2 ^ ((m : ℤ) - 53 + 53) := by
    rw [sub_add_cancel, zpow_natCast, abs_le]
    constructor
    · by_contra hlt
      have := roundFinite_le (by simpa using roundFinite_pow (n := m) (-1) rfl)
        (not_le.1 hlt).le
      linarith
    · by_contra hlt
      have := le_roundFinite (by simpa using roundFinite_pow (n := m) 1 rfl) (not_le.1 hlt).le
      linarith
  have herror := abs_le.1 (abs_sub_roundFinite_le (by omega) hquotient)
  have hhalf : (2 : ℚ) ^ ((m : ℤ) - 53) / 2 = 2 ^ (m - 54 : ℤ) := by
    rw [show ((m : ℤ) - 54) = m - 53 - 1 by ring, zpow_sub_one₀ two_ne_zero]
    ring
  rw [hhalf] at herror
  have hstart : s ≤ 90 * k + 90 * 2 ^ (m - 54 : ℤ) := by
    have hq : s / 90 ≤ k + 2 ^ (m - 54 : ℤ) := by linarith
    rw [div_le_iff₀ (by norm_num)] at hq
    linarith
  have hcast : (2 : ℚ) ^ ((e : ℤ) + 53) = 2 ^ (e + 53) := by
    exact_mod_cast zpow_natCast (2 : ℚ) (e + 53)
  have hbound := roundFinite_le_add_half (q := s + w)
    (p := 90 * k + 90 * 2 ^ (m - 54 : ℤ) + 360) (e := e) (by omega) (by linarith)
    (by rw [hcast, abs_le]; constructor <;> linarith)
  rwa [zpow_natCast] at hbound

theorem settles_of_window {m e : ℕ} {base k : ℤ}
    (hcheck : ∀ i < 8, Settles m e (base + (i : ℕ))) (hlow : base ≤ k) (hhigh : k < base + 8) :
    Settles m e k := by
  have h := hcheck (k - base).toNat (by omega)
  rwa [show base + ((k - base).toNat : ℤ) = k by omega] at h

/-- **Five steps from a first angle** carry as the table says, or pass every limit below 2^60. -/
theorem exists_settles {k : ℤ} (hlow : -2 ^ 60 ≤ roundFinite (90 * k))
    (hhigh : roundFinite (90 * k) < 2 ^ 60) :
    ∃ m e : ℕ, Bounded m e k ∧
      (Settles m e k ∨ (2 ^ 60 ≤ carry^[5] (roundFinite (90 * k)) ∧
        2 ^ 60 ≤ roundFinite (90 * k) + fiveTurns (roundFinite (90 * k)))) := by
  have hup : 90 * k < 2 ^ 60 := by
    have := lt_zpow_of_roundFinite_lt (e := 60) (by norm_num) (by exact_mod_cast hhigh)
    exact_mod_cast this
  have hdown : -2 ^ 60 - 256 ≤ 90 * k := by
    by_contra hlt
    have hcast : 90 * (k : ℚ) ≤ -2 ^ 60 - 256 := by exact_mod_cast (not_le.1 hlt).le
    have hround := roundFinite_le (p := -2 ^ 60 - 256) (by decide +kernel) hcast
    linarith
  rcases lt_or_ge k (-6405119470038046) with h | h1
  · exact ⟨54, 7, ⟨by omega, by omega, by omega, by omega, by omega⟩,
      .inl (settles_neg_59 hlow (by omega))⟩
  rcases lt_or_ge k (-6405119470038038) with h | h2
  · exact ⟨53, 7, ⟨by omega, by omega, by omega, by omega, by omega⟩,
      .inl (settles_of_window settles_at_neg_59 h1 h)⟩
  rcases lt_or_ge k (-3202559735019026) with h | h3
  · exact ⟨53, 7, ⟨by omega, by omega, by omega, by omega, by omega⟩,
      .inl (settles_58 (.inr ⟨by omega, by omega⟩) 53 7)⟩
  rcases lt_or_ge k (-3202559735019018) with h | h4
  · exact ⟨52, 6, ⟨by omega, by omega, by omega, by omega, by omega⟩,
      .inl (settles_of_window settles_at_neg_58 h3 h)⟩
  rcases lt_or_ge k (-1601279867509516) with h | h5
  · exact ⟨52, 5, ⟨by omega, by omega, by omega, by omega, by omega⟩,
      .inl (settles_57 (.inr ⟨by omega, by omega⟩))⟩
  rcases lt_or_ge k (-1601279867509508) with h | h6
  · exact ⟨51, 5, ⟨by omega, by omega, by omega, by omega, by omega⟩,
      .inl (settles_of_window settles_at_neg_57 h5 h)⟩
  rcases lt_or_ge k 1601279867509503 with h | h7
  · exact ⟨51, 4, ⟨by omega, by omega, by omega, by omega, by omega⟩,
      .inl (settles_near ⟨by omega, by omega⟩)⟩
  rcases lt_or_ge k 1601279867509511 with h | h8
  · exact ⟨51, 5, ⟨by omega, by omega, by omega, by omega, by omega⟩,
      .inl (settles_of_window settles_at_57 h7 h)⟩
  rcases lt_or_ge k 3202559735019013 with h | h9
  · exact ⟨52, 5, ⟨by omega, by omega, by omega, by omega, by omega⟩,
      .inl (settles_57 (.inl ⟨by omega, by omega⟩))⟩
  rcases lt_or_ge k 3202559735019021 with h | h10
  · exact ⟨52, 6, ⟨by omega, by omega, by omega, by omega, by omega⟩,
      .inl (settles_of_window settles_at_58 h9 h)⟩
  rcases lt_or_ge k 6405119470038033 with h | h11
  · exact ⟨53, 7, ⟨by omega, by omega, by omega, by omega, by omega⟩,
      .inl (settles_58 (.inl ⟨by omega, by omega⟩) 53 7)⟩
  rcases lt_or_ge k 6405119470038041 with h | h12
  · exact ⟨53, 7, ⟨by omega, by omega, by omega, by omega, by omega⟩,
      .inl (settles_of_window settles_at_59 h11 h)⟩
  rcases settles_59 (k := k) (by omega) hup with ⟨hsettles, hsum⟩ | hpast
  · exact ⟨54, 7, ⟨by omega, by omega, by omega, by omega, by omega⟩, .inl hsettles⟩
  · exact ⟨54, 8, ⟨by omega, by omega, by omega, by omega, by omega⟩, .inr hpast⟩

/-- **Five steps pass a limit** if it is within the distance of the table. -/
theorem lt_iterate_five_iff {k : ℤ} {s w : ℚ} (hk : ⌈roundFinite (s / 90)⌉ = k) (hw : w ≤ 360)
    (hlow : -2 ^ 60 ≤ roundFinite (90 * k)) (hhigh : roundFinite (90 * k) < 2 ^ 60)
    (hlimit : roundFinite (s + w) < 2 ^ 60) :
    roundFinite (s + w) < carry^[5] (roundFinite (90 * k)) ↔
      roundFinite (s + w) < roundFinite (90 * k) + fiveTurns (roundFinite (90 * k)) := by
  obtain ⟨m, e, hbounded, hsettles⟩ := exists_settles hlow hhigh
  have hbound := hbounded.limit_le hk hw
  rcases hsettles with (heq | ⟨h1, h2⟩) | ⟨h1, h2⟩
  · rw [heq]
  · exact iff_of_true (hbound.trans_lt h1) (hbound.trans_lt h2)
  · exact iff_of_true (hlimit.trans_le h1) (hlimit.trans_le h2)

end PolygonNesting.Dxf
