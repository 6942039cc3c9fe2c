import PolygonNesting.Canonical.Grid
import PolygonNesting.Lib.Binary64

/-!
# Orientation on the canonical grid

The grid predicates of the source work on `f64` coordinates and check each time
that they are safe integers.  The sign of the cross product is computed in
`f64` for small coordinates and exactly for all others; both ways agree with
the exact cross product.
-/

namespace PolygonNesting

open Binary64

/-! ## §1  The predicates -/

/-- A grid point with the coordinates of the source. -/
structure NumberGridPoint where
  x : Number
  y : Number

/-- `Number.isSafeInteger`. -/
def isCanonicalGridCoordinate : Number → Bool
  | .finite value _ => decide (Int.fract value = 0) && decide (|value| ≤ (maxSafeInteger : ℚ))
  | _ => false

/-- `value as i64`. -/
def safeIntegerToBigint : Number → ℤ
  | .nan => 0
  | .infinity negative => if negative then -2 ^ 63 else 2 ^ 63 - 1
  | .finite value _ => max (-2 ^ 63) (min (2 ^ 63 - 1) (value.num.tdiv value.den))

def isCanonicalGridPoint (point : NumberGridPoint) : Bool :=
  isCanonicalGridCoordinate point.x && isCanonicalGridCoordinate point.y

/-- The exact cross product of three grid points. -/
def gridCross (origin first second : CanonicalGridPoint) : ℤ :=
  (first.x - origin.x) * (second.y - origin.y) - (first.y - origin.y) * (second.x - origin.x)

def safePointToBigint (point : NumberGridPoint) : CanonicalGridPoint :=
  ⟨safeIntegerToBigint point.x, safeIntegerToBigint point.y⟩

def canonicalGridCross (origin first second : NumberGridPoint) : Option ℤ :=
  if !isCanonicalGridPoint origin || !isCanonicalGridPoint first ||
      !isCanonicalGridPoint second then none
  else some (gridCross (safePointToBigint origin) (safePointToBigint first)
    (safePointToBigint second))

/-- `2^25 - 1`. -/
def canonicalGridExactNumberCrossLimit : ℤ := 33554431

def withinExactNumberCrossLimit (point : NumberGridPoint) : Bool :=
  point.x.abs.le (Number.ofInt canonicalGridExactNumberCrossLimit) &&
    point.y.abs.le (Number.ofInt canonicalGridExactNumberCrossLimit)

def canonicalGridCrossSign (origin first second : NumberGridPoint) : Option ℤ :=
  if !isCanonicalGridPoint origin || !isCanonicalGridPoint first ||
      !isCanonicalGridPoint second then none
  else if withinExactNumberCrossLimit origin && withinExactNumberCrossLimit first &&
      withinExactNumberCrossLimit second then
    let cross := ((first.x.sub origin.x).mul (second.y.sub origin.y)).sub
      ((first.y.sub origin.y).mul (second.x.sub origin.x))
    some (if cross.eq (Number.ofInt 0) then 0 else if cross.lt (Number.ofInt 0) then -1 else 1)
  else
    (canonicalGridCross origin first second).map fun exact =>
      if exact = 0 then 0 else if exact < 0 then -1 else 1

/-! ## §2  Safe points -/

/-- A point with integer coordinates, as numbers. -/
def numberPoint (point : CanonicalGridPoint) : NumberGridPoint :=
  ⟨Number.ofInt point.x, Number.ofInt point.y⟩

/-- A grid point with safe-integer coordinates. -/
structure SafeGridPoint extends CanonicalGridPoint where
  x_safe : |x| ≤ maxSafeInteger
  y_safe : |y| ≤ maxSafeInteger
  deriving DecidableEq

namespace SafeGridPoint

/-- The point with the coordinates of the source. -/
def toNumber (point : SafeGridPoint) : NumberGridPoint :=
  ⟨Number.ofInt point.x, Number.ofInt point.y⟩

end SafeGridPoint

theorem abs_le_of_safe {n : ℤ} (h : |n| ≤ maxSafeInteger) : |n| ≤ 2 ^ 53 :=
  h.trans (by unfold maxSafeInteger; norm_num)

/-- **The safe integers among the numbers.** -/
theorem isCanonicalGridCoordinate_iff {value : Number} :
    isCanonicalGridCoordinate value = true ↔
      ∃ n : ℤ, |n| ≤ maxSafeInteger ∧ Number.ofInt n = value := by
  constructor
  · intro h
    cases value with
    | nan => cases h
    | infinity _ => cases h
    | finite value representable =>
      rw [isCanonicalGridCoordinate, Bool.and_eq_true, decide_eq_true_iff,
        decide_eq_true_iff] at h
      have hvalue : (⌊value⌋ : ℚ) = value := by
        have := Int.floor_add_fract value
        rwa [h.1, add_zero] at this
      have hsafe : |⌊value⌋| ≤ maxSafeInteger := by
        have := h.2
        rw [← hvalue] at this
        exact_mod_cast this
      refine ⟨⌊value⌋, hsafe, ?_⟩
      rw [Number.ofInt_eq (abs_le_of_safe hsafe)]
      simp only [hvalue]
  · rintro ⟨n, hn, rfl⟩
    rw [Number.ofInt_eq (abs_le_of_safe hn), isCanonicalGridCoordinate, Bool.and_eq_true,
      decide_eq_true_iff, decide_eq_true_iff]
    exact ⟨Int.fract_intCast n, by exact_mod_cast hn⟩

theorem safeIntegerToBigint_ofInt {n : ℤ} (h : |n| ≤ maxSafeInteger) :
    safeIntegerToBigint (Number.ofInt n) = n := by
  rw [Number.ofInt_eq (abs_le_of_safe h), safeIntegerToBigint, Rat.num_intCast, Rat.den_intCast]
  have := abs_le.mp h
  unfold maxSafeInteger at this
  simp only [Nat.cast_one, Int.tdiv_one]
  omega

@[simp] theorem isCanonicalGridPoint_toNumber (point : SafeGridPoint) :
    isCanonicalGridPoint point.toNumber = true := by
  rw [isCanonicalGridPoint, Bool.and_eq_true, isCanonicalGridCoordinate_iff,
    isCanonicalGridCoordinate_iff]
  exact ⟨⟨_, point.x_safe, rfl⟩, ⟨_, point.y_safe, rfl⟩⟩

theorem isCanonicalGridPoint_iff {point : NumberGridPoint} :
    isCanonicalGridPoint point = true ↔ ∃ safe : SafeGridPoint, safe.toNumber = point := by
  constructor
  · intro h
    rw [isCanonicalGridPoint, Bool.and_eq_true, isCanonicalGridCoordinate_iff,
      isCanonicalGridCoordinate_iff] at h
    obtain ⟨⟨x, hx, hx'⟩, y, hy, hy'⟩ := h
    obtain ⟨px, py⟩ := point
    exact ⟨⟨⟨x, y⟩, hx, hy⟩, congrArg₂ NumberGridPoint.mk hx' hy'⟩
  · rintro ⟨safe, rfl⟩
    exact isCanonicalGridPoint_toNumber safe

@[simp] theorem safePointToBigint_toNumber (point : SafeGridPoint) :
    safePointToBigint point.toNumber = point.toCanonicalGridPoint :=
  congrArg₂ CanonicalGridPoint.mk (safeIntegerToBigint_ofInt point.x_safe)
    (safeIntegerToBigint_ofInt point.y_safe)

/-! ## §3  The fast path -/

theorem withinExactNumberCrossLimit_iff {point : SafeGridPoint} :
    withinExactNumberCrossLimit point.toNumber = true ↔
      |point.x| ≤ canonicalGridExactNumberCrossLimit ∧
        |point.y| ≤ canonicalGridExactNumberCrossLimit := by
  have hlimit : |canonicalGridExactNumberCrossLimit| ≤ 2 ^ 53 := by
    unfold canonicalGridExactNumberCrossLimit
    norm_num
  have hle : ∀ n : ℤ, |n| ≤ maxSafeInteger →
      (((Number.ofInt n).abs.le (Number.ofInt canonicalGridExactNumberCrossLimit)) = true ↔
        |n| ≤ canonicalGridExactNumberCrossLimit) := by
    intro n hn
    rw [Number.ofInt_eq (abs_le_of_safe hn), Number.ofInt_eq hlimit, Number.abs, Number.le,
      decide_eq_true_iff]
    exact_mod_cast Iff.rfl
  rw [withinExactNumberCrossLimit, Bool.and_eq_true]
  exact and_congr (hle _ point.x_safe) (hle _ point.y_safe)

/-- Differences of small coordinates. -/
theorem abs_sub_le_of_limit {a b : ℤ} (ha : |a| ≤ canonicalGridExactNumberCrossLimit)
    (hb : |b| ≤ canonicalGridExactNumberCrossLimit) : |a - b| ≤ 2 ^ 26 - 2 := by
  unfold canonicalGridExactNumberCrossLimit at ha hb
  rw [abs_le] at *
  omega

/-- Their products. -/
theorem abs_mul_le_of_limit {a b : ℤ} (ha : |a| ≤ 2 ^ 26 - 2) (hb : |b| ≤ 2 ^ 26 - 2) :
    |a * b| ≤ 2 ^ 52 := by
  rw [abs_mul]
  calc |a| * |b| ≤ (2 ^ 26 - 2) * (2 ^ 26 - 2) :=
        mul_le_mul ha hb (abs_nonneg b) (by norm_num)
    _ ≤ 2 ^ 52 := by norm_num

/-- **No step of the fast path rounds.** -/
theorem number_cross_exact {origin first second : SafeGridPoint}
    (ho : withinExactNumberCrossLimit origin.toNumber = true)
    (hf : withinExactNumberCrossLimit first.toNumber = true)
    (hs : withinExactNumberCrossLimit second.toNumber = true) :
    ((first.toNumber.x.sub origin.toNumber.x).mul (second.toNumber.y.sub origin.toNumber.y)).sub
        ((first.toNumber.y.sub origin.toNumber.y).mul (second.toNumber.x.sub origin.toNumber.x)) =
      Number.ofInt (gridCross origin.toCanonicalGridPoint first.toCanonicalGridPoint
        second.toCanonicalGridPoint) ∧
    |gridCross origin.toCanonicalGridPoint first.toCanonicalGridPoint
        second.toCanonicalGridPoint| ≤ 2 ^ 53 := by
  rw [withinExactNumberCrossLimit_iff] at ho hf hs
  have hfx := abs_sub_le_of_limit hf.1 ho.1
  have hfy := abs_sub_le_of_limit hf.2 ho.2
  have hsx := abs_sub_le_of_limit hs.1 ho.1
  have hsy := abs_sub_le_of_limit hs.2 ho.2
  have hleft := abs_mul_le_of_limit hfx hsy
  have hright := abs_mul_le_of_limit hfy hsx
  have hsub : ∀ {a b : ℤ}, |a| ≤ maxSafeInteger → |b| ≤ maxSafeInteger →
      (Number.ofInt a).sub (Number.ofInt b) = Number.ofInt (a - b) := fun ha hb =>
    Number.sub_ofInt (abs_le_of_safe ha) (abs_le_of_safe hb)
  have hmul : ∀ {a b : ℤ}, |a| ≤ 2 ^ 26 - 2 → |b| ≤ 2 ^ 26 - 2 →
      (Number.ofInt a).mul (Number.ofInt b) = Number.ofInt (a * b) := fun ha hb =>
    Number.mul_ofInt (ha.trans (by norm_num)) (hb.trans (by norm_num))
  constructor
  · unfold SafeGridPoint.toNumber
    dsimp only
    rw [hsub first.x_safe origin.x_safe, hsub second.y_safe origin.y_safe,
      hsub first.y_safe origin.y_safe, hsub second.x_safe origin.x_safe, hmul hfx hsy,
      hmul hfy hsx, Number.sub_ofInt (hleft.trans (by norm_num)) (hright.trans (by norm_num))]
    rfl
  · unfold gridCross
    calc |_| ≤ _ := abs_sub _ _
      _ ≤ 2 ^ 52 + 2 ^ 52 := add_le_add hleft hright
      _ = 2 ^ 53 := by norm_num

theorem sign_eq_ite (n : ℤ) : (if n = 0 then 0 else if n < 0 then -1 else 1) = Int.sign n := by
  rcases lt_trichotomy n 0 with h | rfl | h
  · rw [if_neg h.ne, if_pos h, Int.sign_eq_neg_one_of_neg h]
  · rfl
  · rw [if_neg h.ne', if_neg h.not_gt, Int.sign_eq_one_of_pos h]

/-- On safe points the answer is the sign of the exact cross product. -/
theorem canonicalGridCrossSign_toNumber (origin first second : SafeGridPoint) :
    canonicalGridCrossSign origin.toNumber first.toNumber second.toNumber =
      some (Int.sign (gridCross origin.toCanonicalGridPoint first.toCanonicalGridPoint
        second.toCanonicalGridPoint)) := by
  unfold canonicalGridCrossSign
  simp only [isCanonicalGridPoint_toNumber, Bool.not_true, Bool.or_self, Bool.false_eq_true,
    if_false]
  split
  · next hlimit =>
    rw [Bool.and_eq_true, Bool.and_eq_true] at hlimit
    obtain ⟨hcross, hle⟩ := number_cross_exact hlimit.1.1 hlimit.1.2 hlimit.2
    rw [hcross, Number.eq_ofInt_zero hle, Number.lt_ofInt_zero hle, ← sign_eq_ite]
    simp only [decide_eq_true_eq]
  · unfold canonicalGridCross
    simp only [isCanonicalGridPoint_toNumber, Bool.not_true, Bool.or_self, Bool.false_eq_true,
      if_false, safePointToBigint_toNumber, Option.map_some, sign_eq_ite]

/-- The points with safe-integer coordinates. -/
theorem isCanonicalGridPoint_iff_coordinates {point : NumberGridPoint} :
    isCanonicalGridPoint point = true ↔ ∃ x y : ℤ, |x| ≤ maxSafeInteger ∧
      |y| ≤ maxSafeInteger ∧ point = ⟨Number.ofInt x, Number.ofInt y⟩ := by
  rw [isCanonicalGridPoint_iff]
  constructor
  · rintro ⟨safe, rfl⟩
    exact ⟨safe.x, safe.y, safe.x_safe, safe.y_safe, rfl⟩
  · rintro ⟨x, y, hx, hy, rfl⟩
    exact ⟨⟨⟨x, y⟩, hx, hy⟩, rfl⟩

theorem canonicalGridCrossSign_eq_none_iff {origin first second : NumberGridPoint} :
    canonicalGridCrossSign origin first second = none ↔
      ∃ point ∈ [origin, first, second], isCanonicalGridPoint point = false := by
  constructor
  · intro hnone
    by_contra hall
    push Not at hall
    simp only [Bool.not_eq_false] at hall
    obtain ⟨o, rfl⟩ := isCanonicalGridPoint_iff.mp (hall origin (by simp))
    obtain ⟨f, rfl⟩ := isCanonicalGridPoint_iff.mp (hall first (by simp))
    obtain ⟨s, rfl⟩ := isCanonicalGridPoint_iff.mp (hall second (by simp))
    rw [canonicalGridCrossSign_toNumber] at hnone
    cases hnone
  · rintro ⟨point, hmem, hnot⟩
    unfold canonicalGridCrossSign
    rw [if_pos]
    simp only [List.mem_cons, List.not_mem_nil, or_false] at hmem
    rcases hmem with rfl | rfl | rfl <;> simp [hnot]

/-- **The sign of the cross product is exact**: on every three safe-integer points
it is the sign of the integer cross product, and there is no answer exactly when
some point is not one. -/
theorem canonicalGridCrossSign_exact :
    (∀ origin first second : SafeGridPoint,
      canonicalGridCrossSign origin.toNumber first.toNumber second.toNumber =
        some (Int.sign ((first.x - origin.x) * (second.y - origin.y) -
          (first.y - origin.y) * (second.x - origin.x)))) ∧
    ∀ origin first second : NumberGridPoint,
      canonicalGridCrossSign origin first second = none ↔
        ∃ point ∈ [origin, first, second],
          ¬∃ x y : ℤ, |x| ≤ maxSafeInteger ∧ |y| ≤ maxSafeInteger ∧
            point = ⟨Number.ofInt x, Number.ofInt y⟩ := by
  refine ⟨fun origin first second => canonicalGridCrossSign_toNumber origin first second,
    fun origin first second => canonicalGridCrossSign_eq_none_iff.trans ?_⟩
  simp only [← isCanonicalGridPoint_iff_coordinates, Bool.not_eq_true]

end PolygonNesting
