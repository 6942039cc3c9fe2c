import PolygonNesting.Lib.Binary64

/-!
# Square roots of numbers, and a total order of all

The square root is the exact one, rounded like any other result.  A rational
beside it that no number and no midpoint of two numbers separates from it
rounds alike, so the integer root of the number scaled up is all that is
needed.  The total order puts not-a-number before every number.
-/

namespace Binary64

/-- All numbers of the size of a square root, and all midpoints of two, are
multiples of this power of one half. -/
def rootPlaces : ℕ := 1100

/-- A rational that rounds as the square root does: the root on the fine grid
where it lies there, else the middle of the grid cell it lies in. -/
def besideRoot (q : ℚ) : ℚ :=
  let scaled := ⌊q * 4 ^ rootPlaces⌋.toNat
  let root := Nat.sqrt scaled
  if (root : ℚ) * root = q * 4 ^ rootPlaces then root / 2 ^ rootPlaces
  else (root + 1 / 2) / 2 ^ rootPlaces

namespace Number

/-- `f64::sqrt`. -/
def sqrt : Number → Number
  | nan => nan
  | infinity negative => if negative then nan else infinity false
  | finite value _ => if value < 0 then nan else round (besideRoot value)

/-- A number divided by two. -/
def halve : Number → Number
  | nan => nan
  | infinity negative => infinity negative
  | finite value _ => round (value / 2)

/-- The place of a number in the total order, not-a-number first. -/
def rank (value : Number) : ℤ ×ₗ ℚ := if value.isNan then toLex (-2, 0) else value.place

/-- Without not-a-number the order is that of the places. -/
theorem lt_eq_rank_lt {first second : Number} (hfirst : first.isNan = false)
    (hsecond : second.isNan = false) :
    first.lt second = decide (first.rank < second.rank) := by
  have hcmp := partialCmp_eq hfirst hsecond
  unfold rank
  rw [if_neg (by simp [hfirst]), if_neg (by simp [hsecond])]
  unfold partialCmp at hcmp
  cases hlt : first.lt second with
  | true =>
      rw [hlt, if_pos rfl] at hcmp
      exact (decide_eq_true (compare_lt_iff_lt.mp (Option.some.inj hcmp).symm)).symm
  | false =>
      rw [hlt] at hcmp
      refine (decide_eq_false fun hplace => ?_).symm
      rw [compare_lt_iff_lt.mpr hplace] at hcmp
      revert hcmp
      cases second.lt first <;> cases first.eq second <;> simp

/-- Not-a-number is before every number. -/
theorem rank_nan_lt {value : Number} (h : value.isNan = false) : nan.rank < value.rank := by
  cases value with
  | nan => cases h
  | infinity negative =>
      cases negative
      · exact Prod.Lex.toLex_lt_toLex.mpr (.inl (by decide))
      · exact Prod.Lex.toLex_lt_toLex.mpr (.inl (by decide))
  | finite value _ => exact Prod.Lex.toLex_lt_toLex.mpr (.inl (by norm_num))

end Number

end Binary64
