import Mathlib.Algebra.Order.Field.Power
import Mathlib.Data.Int.Log
import Mathlib.Data.Rat.Floor
import Mathlib.Tactic.Linarith
import Mathlib.Tactic.NormNum
import Mathlib.Tactic.Positivity
import Mathlib.Tactic.Push
import Mathlib.Data.Prod.Lex
import Mathlib.Tactic.Ring
import PolygonNesting.Lib.Comparator

/-!
# Binary64 numbers

The numbers of the binary64 format: not-a-number, two infinities, and the
rationals with 53 significant bits and a bounded exponent.  A sum, difference or
product of finite numbers is the exact one, rounded to nearest with ties to
even.  The two zeros are one number, as `==` has it.
-/

namespace Binary64

/-! ## §1  Rounding -/

/-- The nearest integer, the even one of two. -/
def roundTiesEven (q : ℚ) : ℤ :=
  if q - ⌊q⌋ < 1 / 2 then ⌊q⌋
  else if 1 / 2 < q - ⌊q⌋ then ⌊q⌋ + 1
  else if ⌊q⌋ % 2 = 0 then ⌊q⌋
  else ⌊q⌋ + 1

@[simp] theorem roundTiesEven_intCast (n : ℤ) : roundTiesEven n = n := by
  unfold roundTiesEven
  rw [Int.floor_intCast, sub_self, if_pos (by norm_num)]

theorem floor_le_roundTiesEven (q : ℚ) : ⌊q⌋ ≤ roundTiesEven q := by
  unfold roundTiesEven
  split_ifs <;> omega

theorem roundTiesEven_le_ceil (q : ℚ) : roundTiesEven q ≤ ⌈q⌉ := by
  rcases eq_or_ne (⌊q⌋ : ℚ) q with heq | hne
  · rw [← heq, roundTiesEven_intCast, Int.ceil_intCast]
  · have hlt : (⌊q⌋ : ℚ) < q := (Int.floor_le q).lt_of_ne hne
    have hceil : ⌊q⌋ + 1 ≤ ⌈q⌉ := Int.add_one_le_iff.mpr (Int.lt_ceil.mpr hlt)
    unfold roundTiesEven
    split_ifs <;> omega

theorem roundTiesEven_mem {q : ℚ} {a b : ℤ} (ha : (a : ℚ) ≤ q) (hb : q ≤ b) :
    a ≤ roundTiesEven q ∧ roundTiesEven q ≤ b :=
  ⟨(Int.le_floor.mpr ha).trans (floor_le_roundTiesEven q),
    (roundTiesEven_le_ceil q).trans (Int.ceil_le.mpr hb)⟩

theorem roundTiesEven_neg (q : ℚ) : roundTiesEven (-q) = -roundTiesEven q := by
  rcases eq_or_ne (⌊q⌋ : ℚ) q with heq | hne
  · rw [← heq, ← Int.cast_neg, roundTiesEven_intCast, roundTiesEven_intCast]
  · have hlt : (⌊q⌋ : ℚ) < q := (Int.floor_le q).lt_of_ne hne
    have hfloor : ⌊-q⌋ = -⌊q⌋ - 1 := by
      rw [Int.floor_eq_iff]
      push_cast
      constructor <;> linarith [Int.lt_floor_add_one q]
    -- the parts over the floor add up to one
    have hpart : -q - (-⌊q⌋ - 1 : ℤ) = 1 - (q - ⌊q⌋) := by
      push_cast
      ring
    unfold roundTiesEven
    rw [hfloor, hpart]
    rcases lt_trichotomy (q - ⌊q⌋) (1 / 2) with h | h | h
    · rw [if_neg (by linarith), if_pos (by linarith), if_pos h]
      omega
    · have h' : 1 - (q - ⌊q⌋) = 1 / 2 := by linarith
      rw [h', h]
      simp only [lt_irrefl, if_false]
      split_ifs <;> omega
    · rw [if_pos (by linarith), if_neg (by linarith), if_pos h]
      omega

/-- The exponent of the last of 53 bits, and not below that of the subnormals. -/
def lastPlace (q : ℚ) : ℤ := max (Int.log 2 |q| - 52) (-1074)

theorem lastPlace_pos (q : ℚ) : (0 : ℚ) < 2 ^ lastPlace q := by positivity

/-- The nearest multiple of the last place. -/
def roundFinite (q : ℚ) : ℚ := roundTiesEven (q / 2 ^ lastPlace q) * 2 ^ lastPlace q

theorem roundFinite_of_div {q : ℚ} {n : ℤ} (h : q / 2 ^ lastPlace q = n) : roundFinite q = q := by
  unfold roundFinite
  rw [h, roundTiesEven_intCast, ← h, div_mul_cancel₀ _ (lastPlace_pos q).ne']

/-- **What has 53 bits stays.** -/
theorem roundFinite_of_bits {m e : ℤ} (hm : |m| ≤ 2 ^ 53) (he : -1074 ≤ e) :
    roundFinite (m * 2 ^ e) = m * 2 ^ e := by
  rcases eq_or_ne m 0 with rfl | hne
  · refine roundFinite_of_div (n := 0) ?_
    rw [Int.cast_zero, zero_mul, zero_div]
  have habs : |(m : ℚ) * 2 ^ e| = |(m : ℚ)| * 2 ^ e := by
    rw [abs_mul, abs_of_pos (a := (2 : ℚ) ^ e) (by positivity)]
  have hpos : 0 < |(m : ℚ) * 2 ^ e| := by
    rw [habs]
    positivity
  have hle : |(m : ℚ) * 2 ^ e| ≤ 2 ^ (53 + e) := by
    rw [habs, zpow_add₀ two_ne_zero]
    refine mul_le_mul_of_nonneg_right ?_ (by positivity)
    exact_mod_cast hm
  have hlog : Int.log 2 |(m : ℚ) * 2 ^ e| ≤ 53 + e := by
    have := Int.log_mono_right (b := 2) hpos hle
    have hcast := Int.log_zpow (R := ℚ) (b := 2) one_lt_two (53 + e)
    rw [Nat.cast_ofNat] at hcast
    rwa [hcast] at this
  rcases le_or_gt (lastPlace (m * 2 ^ e)) e with hplace | hplace
  · obtain ⟨d, hd⟩ := Int.le.dest hplace
    refine roundFinite_of_div (n := m * 2 ^ d) ?_
    rw [mul_div_assoc, ← zpow_sub₀ two_ne_zero,
      show e - lastPlace (m * 2 ^ e) = d by omega, zpow_natCast]
    push_cast
    rfl
  · -- one place too many: the number is a power of two
    have hplace : lastPlace (m * 2 ^ e) = e + 1 ∧ Int.log 2 |(m : ℚ) * 2 ^ e| = 53 + e := by
      unfold lastPlace at hplace ⊢
      omega
    have hpow := Int.zpow_log_le_self (R := ℚ) (b := 2) one_lt_two hpos
    rw [hplace.2, habs, Nat.cast_ofNat, zpow_add₀ two_ne_zero] at hpow
    have hm' : (2 : ℚ) ^ (53 : ℤ) ≤ |(m : ℚ)| := le_of_mul_le_mul_right hpow (by positivity)
    have hm' : (2 : ℤ) ^ 53 ≤ |m| := by exact_mod_cast hm'
    have heq : m = 2 ^ 52 * 2 ∨ m = -2 ^ 52 * 2 := by
      rcases abs_eq_abs.mp ((le_antisymm hm hm').trans (abs_of_pos (by positivity)).symm) with h | h
      · exact .inl (h.trans (by norm_num))
      · exact .inr (h.trans (by norm_num))
    have hdiv : ∀ n : ℤ, m = n * 2 → (m : ℚ) * 2 ^ e / 2 ^ lastPlace (m * 2 ^ e) = n := by
      rintro n rfl
      rw [hplace.1, zpow_add₀ two_ne_zero, zpow_one]
      push_cast
      field_simp
    rcases heq with h | h
    · exact roundFinite_of_div (hdiv _ h)
    · exact roundFinite_of_div (hdiv _ h)

theorem roundFinite_intCast {n : ℤ} (h : |n| ≤ 2 ^ 53) : roundFinite n = n := by
  have := roundFinite_of_bits (e := 0) h (by norm_num)
  rwa [zpow_zero, mul_one] at this

theorem lt_lastPlace (q : ℚ) : |q| < 2 ^ (53 : ℤ) * 2 ^ lastPlace q := by
  have hlog := Int.lt_zpow_succ_log_self (R := ℚ) (b := 2) one_lt_two |q|
  rw [Nat.cast_ofNat] at hlog
  refine hlog.trans_le ?_
  rw [← zpow_add₀ two_ne_zero]
  refine zpow_le_zpow_right₀ one_le_two ?_
  unfold lastPlace
  omega

theorem roundFinite_roundFinite (q : ℚ) : roundFinite (roundFinite q) = roundFinite q := by
  have hlt : |q / 2 ^ lastPlace q| ≤ ((2 ^ 53 : ℤ) : ℚ) := by
    rw [abs_div, abs_of_pos (lastPlace_pos q), div_le_iff₀ (lastPlace_pos q)]
    exact (lt_lastPlace q).le.trans_eq (by norm_cast)
  have hmem := roundTiesEven_mem (a := -2 ^ 53) (b := 2 ^ 53)
    (by simpa using (abs_le.mp hlt).1) (abs_le.mp hlt).2
  exact roundFinite_of_bits (abs_le.mpr hmem) (le_max_right _ _)

theorem two_pow_lastPlace_le {q : ℚ} (h : 1 ≤ |q|) : 2 ^ lastPlace q ≤ |q| := by
  have hpos : 0 < |q| := one_pos.trans_le h
  have hlog := Int.log_mono_right (b := 2) one_pos h
  rw [Int.log_one_right] at hlog
  have hpow := Int.zpow_log_le_self (R := ℚ) (b := 2) one_lt_two hpos
  rw [Nat.cast_ofNat] at hpow
  refine le_trans (zpow_le_zpow_right₀ one_le_two ?_) hpow
  unfold lastPlace
  omega

/-- **Away from zero, rounding keeps the sign.** -/
theorem roundFinite_pos {q : ℚ} (h : 1 ≤ q) : 0 < roundFinite q := by
  have hq : |q| = q := abs_of_pos (one_pos.trans_le h)
  have hdiv : ((1 : ℤ) : ℚ) ≤ q / 2 ^ lastPlace q := by
    rw [Int.cast_one, le_div_iff₀ (lastPlace_pos q), one_mul]
    exact (two_pow_lastPlace_le (h.trans_eq hq.symm)).trans_eq hq
  have hone := (Int.le_floor.mpr hdiv).trans (floor_le_roundTiesEven _)
  exact mul_pos (by exact_mod_cast Int.lt_of_lt_of_le Int.one_pos hone) (lastPlace_pos q)

theorem roundFinite_neg {q : ℚ} (h : q ≤ -1) : roundFinite q < 0 := by
  have hq : |q| = -q := abs_of_neg (h.trans_lt (by norm_num))
  have hdiv : q / 2 ^ lastPlace q ≤ ((-1 : ℤ) : ℚ) := by
    rw [div_le_iff₀ (lastPlace_pos q)]
    have := two_pow_lastPlace_le (q := q) (by rw [hq]; linarith)
    rw [hq] at this
    push_cast
    linarith
  have hone := (roundTiesEven_le_ceil _).trans (Int.ceil_le.mpr hdiv)
  refine mul_neg_of_neg_of_pos ?_ (lastPlace_pos q)
  exact_mod_cast hone.trans_lt (by norm_num)

/-! ## §2  Numbers -/

/-- In range, with 53 bits. -/
def Representable (q : ℚ) : Prop := |q| < 2 ^ 1024 ∧ roundFinite q = q

theorem Representable.abs {q : ℚ} (h : Representable q) : Representable |q| := by
  rcases abs_choice q with heq | heq
  · rwa [heq]
  · rw [heq]
    refine ⟨by rw [abs_neg]; exact h.1, ?_⟩
    have hplace : lastPlace (-q) = lastPlace q := by
      unfold lastPlace
      rw [abs_neg]
    unfold roundFinite
    rw [hplace, neg_div, roundTiesEven_neg, Int.cast_neg, neg_mul]
    exact congrArg Neg.neg h.2

inductive Number where
  | nan
  | infinity (negative : Bool)
  | finite (value : ℚ) (representable : Representable value)

/-- The number nearest to a rational, an infinity beyond the range. -/
def round (q : ℚ) : Number :=
  if h : |roundFinite q| < 2 ^ 1024 then .finite (roundFinite q) ⟨h, roundFinite_roundFinite q⟩
  else .infinity (decide (q < 0))

namespace Number

def isNan : Number → Bool
  | nan => true
  | _ => false

def abs : Number → Number
  | nan => nan
  | infinity _ => infinity false
  | finite value representable => finite |value| representable.abs

def sub : Number → Number → Number
  | nan, _ => nan
  | _, nan => nan
  | infinity first, infinity second => if first = second then nan else infinity first
  | infinity negative, finite _ _ => infinity negative
  | finite _ _, infinity negative => infinity (!negative)
  | finite first _, finite second _ => round (first - second)

def add : Number → Number → Number
  | nan, _ => nan
  | _, nan => nan
  | infinity first, infinity second => if first = second then infinity first else nan
  | infinity negative, finite _ _ => infinity negative
  | finite _ _, infinity negative => infinity negative
  | finite first _, finite second _ => round (first + second)

def mul : Number → Number → Number
  | nan, _ => nan
  | _, nan => nan
  | infinity first, infinity second => infinity (first != second)
  | infinity negative, finite value _ =>
      if value = 0 then nan else infinity (negative != decide (value < 0))
  | finite value _, infinity negative =>
      if value = 0 then nan else infinity (negative != decide (value < 0))
  | finite first _, finite second _ => round (first * second)

/-- `<`; nothing is below or above not-a-number. -/
def lt : Number → Number → Bool
  | nan, _ => false
  | _, nan => false
  | infinity first, infinity second => first && !second
  | infinity negative, finite _ _ => negative
  | finite _ _, infinity negative => !negative
  | finite first _, finite second _ => decide (first < second)

/-- `<=`. -/
def le : Number → Number → Bool
  | nan, _ => false
  | _, nan => false
  | infinity first, infinity second => first || !second
  | infinity negative, finite _ _ => negative
  | finite _ _, infinity negative => !negative
  | finite first _, finite second _ => decide (first ≤ second)

/-- `==`. -/
def eq : Number → Number → Bool
  | infinity first, infinity second => first == second
  | finite first _, finite second _ => decide (first = second)
  | _, _ => false

/-- The number an integer of at most 53 bits is. -/
def ofInt (n : ℤ) : Number := round n

def isFinite : Number → Bool
  | finite _ _ => true
  | _ => false

def floor : Number → Number
  | nan => nan
  | infinity negative => infinity negative
  | finite value _ => ofInt ⌊value⌋

/-- The sign; zero and not-a-number are their own. -/
def sign (value : Number) : Number :=
  if (ofInt 0).lt value then ofInt 1 else if value.lt (ofInt 0) then ofInt (-1) else value

/-- The smaller of two; not-a-number gives way. -/
def min (first second : Number) : Number :=
  if first.isNan then second else if second.isNan then first
  else if second.lt first then second else first

/-- The order of two numbers, where they have one. -/
def partialCmp (first second : Number) : Option Ordering :=
  if first.lt second then some .lt else if second.lt first then some .gt
  else if first.eq second then some .eq else none

end Number

/-! ## §3  Integers are exact -/

theorem round_eq_finite {q : ℚ} (h : Representable q) : round q = .finite q h := by
  unfold round
  simp only [h.2]
  rw [dif_pos h.1]

theorem representable_intCast {n : ℤ} (h : |n| ≤ 2 ^ 53) : Representable n := by
  refine ⟨?_, roundFinite_intCast h⟩
  have hle : |(n : ℚ)| ≤ 2 ^ 53 := by exact_mod_cast h
  exact hle.trans_lt (pow_lt_pow_right₀ one_lt_two (by norm_num))

theorem Number.ofInt_eq {n : ℤ} (h : |n| ≤ 2 ^ 53) :
    Number.ofInt n = .finite n (representable_intCast h) :=
  round_eq_finite _

variable {a b : ℤ}

/-- **An operation whose exact result has 53 bits is exact.** -/
theorem Number.sub_ofInt (ha : |a| ≤ 2 ^ 53) (hb : |b| ≤ 2 ^ 53) :
    (Number.ofInt a).sub (Number.ofInt b) = Number.ofInt (a - b) := by
  rw [Number.ofInt_eq ha, Number.ofInt_eq hb]
  show round ((a : ℚ) - b) = round ((a - b : ℤ) : ℚ)
  rw [Int.cast_sub]

theorem Number.mul_ofInt (ha : |a| ≤ 2 ^ 53) (hb : |b| ≤ 2 ^ 53) :
    (Number.ofInt a).mul (Number.ofInt b) = Number.ofInt (a * b) := by
  rw [Number.ofInt_eq ha, Number.ofInt_eq hb]
  show round ((a : ℚ) * b) = round ((a * b : ℤ) : ℚ)
  rw [Int.cast_mul]

theorem Number.eq_ofInt_zero (ha : |a| ≤ 2 ^ 53) :
    (Number.ofInt a).eq (Number.ofInt 0) = decide (a = 0) := by
  rw [Number.ofInt_eq ha, Number.ofInt_eq (by norm_num)]
  show decide ((a : ℚ) = ((0 : ℤ) : ℚ)) = _
  simp

theorem Number.lt_ofInt_zero (ha : |a| ≤ 2 ^ 53) :
    (Number.ofInt a).lt (Number.ofInt 0) = decide (a < 0) := by
  rw [Number.ofInt_eq ha, Number.ofInt_eq (by norm_num)]
  show decide ((a : ℚ) < ((0 : ℤ) : ℚ)) = _
  simp

/-- The sign of a rounded integer. -/
theorem Number.sign_round (n : ℤ) :
    (round n).eq (Number.ofInt 0) = decide (n = 0) ∧
      (round n).lt (Number.ofInt 0) = decide (n < 0) ∧
      (Number.ofInt 0).lt (round n) = decide (0 < n) := by
  rw [Number.ofInt_eq (n := 0) (by norm_num)]
  rcases lt_trichotomy n 0 with hn | rfl | hn
  · have hneg : roundFinite n < 0 := roundFinite_neg (by exact_mod_cast Int.le_sub_one_of_lt hn)
    unfold round
    split
    · simp only [Number.eq, Number.lt, Int.cast_zero, hneg.ne, hneg, hneg.not_gt, hn, hn.ne,
        hn.not_gt, decide_true, decide_false, and_self]
    · simp [Number.eq, Number.lt, hn, hn.ne, hn.not_gt]
  · rw [round_eq_finite (representable_intCast (by norm_num))]
    simp [Number.eq, Number.lt]
  · have hpos : 0 < roundFinite n := roundFinite_pos (by exact_mod_cast hn)
    unfold round
    split
    · simp only [Number.eq, Number.lt, Int.cast_zero, hpos.ne', hpos, hpos.not_gt, hn, hn.ne',
        hn.not_gt, decide_true, decide_false, and_self]
    · simp [Number.eq, Number.lt, hn, hn.ne', hn.not_gt]

theorem isNan_round (q : ℚ) : (round q).isNan = false := by
  unfold round
  split <;> rfl

theorem Number.lt_ofInt (ha : |a| ≤ 2 ^ 53) (hb : |b| ≤ 2 ^ 53) :
    (Number.ofInt a).lt (Number.ofInt b) = decide (a < b) := by
  rw [Number.ofInt_eq ha, Number.ofInt_eq hb]
  show decide ((a : ℚ) < b) = _
  simp

theorem Number.min_ofInt (ha : |a| ≤ 2 ^ 53) (hb : |b| ≤ 2 ^ 53) :
    (Number.ofInt a).min (Number.ofInt b) = Number.ofInt (Min.min a b) := by
  unfold Number.min
  rw [Number.lt_ofInt hb ha, show (Number.ofInt a).isNan = false from isNan_round a,
    show (Number.ofInt b).isNan = false from isNan_round b]
  rcases lt_or_ge b a with hlt | hle
  · rw [decide_eq_true hlt, min_eq_right hlt.le]
    rfl
  · rw [decide_eq_false hle.not_gt, min_eq_left hle]
    rfl

/-- Positive infinity is above every integer. -/
theorem Number.infinity_min_ofInt (ha : |a| ≤ 2 ^ 53) :
    (Number.infinity false).min (Number.ofInt a) = Number.ofInt a := by
  rw [Number.ofInt_eq ha]
  rfl

/-! ## §4  The order of numbers -/

/-- The place of a number on the line, the infinities at its ends. -/
def Number.place : Number → ℤ ×ₗ ℚ
  | .nan => toLex (2, 0)
  | .infinity negative => toLex (if negative then -1 else 1, 0)
  | .finite value _ => toLex (0, value)

theorem Number.place_injective : Function.Injective Number.place := by
  intro first second h
  cases first with
  | nan =>
      cases second with
      | nan => rfl
      | infinity negative => cases negative <;> simp [Number.place] at h
      | finite => simp [Number.place] at h
  | infinity negative =>
      cases second with
      | nan => cases negative <;> simp [Number.place] at h
      | infinity negative' => cases negative <;> cases negative' <;> simp [Number.place] at h ⊢
      | finite => cases negative <;> simp [Number.place] at h
  | finite value =>
      cases second with
      | nan => simp [Number.place] at h
      | infinity negative => cases negative <;> simp [Number.place] at h
      | finite => simpa [Number.place] using h

/-- Without not-a-number, the order is that of the places. -/
theorem Number.partialCmp_eq {first second : Number} (hfirst : first.isNan = false)
    (hsecond : second.isNan = false) :
    first.partialCmp second = some (compare first.place second.place) := by
  have hlt : ∀ {first second : Number}, first.isNan = false → second.isNan = false →
      first.lt second = decide (first.place < second.place) := by
    intro first second hfirst hsecond
    cases first with
    | nan => cases hfirst
    | infinity negative =>
        cases second with
        | nan => cases hsecond
        | infinity negative' =>
            cases negative <;> cases negative' <;>
              simp [Number.lt, Number.place, Prod.Lex.toLex_lt_toLex]
        | finite => cases negative <;> simp [Number.lt, Number.place, Prod.Lex.toLex_lt_toLex]
    | finite value =>
        cases second with
        | nan => cases hsecond
        | infinity negative => cases negative <;> simp [Number.lt, Number.place, Prod.Lex.toLex_lt_toLex]
        | finite => simp [Number.lt, Number.place, Prod.Lex.toLex_lt_toLex]
  have hself : first.eq first = true := by
    cases first with
    | nan => cases hfirst
    | infinity negative => cases negative <;> rfl
    | finite value => exact decide_eq_true rfl
  unfold Number.partialCmp
  rw [hlt hfirst hsecond, hlt hsecond hfirst]
  rcases lt_trichotomy first.place second.place with h | h | h
  · rw [decide_eq_true h, compare_lt_iff_lt.mpr h]
    rfl
  · obtain rfl := Number.place_injective h
    rw [hself, compare_eq_iff_eq.mpr rfl, decide_eq_false (lt_irrefl _)]
    rfl
  · rw [decide_eq_true h, decide_eq_false h.not_gt, compare_gt_iff_gt.mpr h]
    rfl

/-- **Numbers other than not-a-number are ordered.** -/
theorem Number.orderOn_partialCmp :
    Comparator.OrderOn (fun value : Number => value.isNan = false)
      fun first second => (first.partialCmp second).getD .eq := by
  refine ⟨fun first second => compare first.place second.place,
    Comparator.transCmp_comap compare Number.place, fun first second hfirst hsecond => ?_⟩
  dsimp only
  rw [Number.partialCmp_eq hfirst hsecond]
  rfl

end Binary64
