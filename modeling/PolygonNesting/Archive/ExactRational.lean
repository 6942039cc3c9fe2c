import Mathlib.Algebra.Order.Field.Rat
import Mathlib.Analysis.Convex.Segment
import Mathlib.Data.Rat.Floor
import Mathlib.Data.Rat.Lemmas
import PolygonNesting.Archive.PeriodicCells
import PolygonNesting.Lib.Comparator
import PolygonNesting.Lib.OrderedMap

/-!
# Exact rationals of lattice bases

Fractions with a positive denominator and coprime terms, over integers without a bound.
They cut the boundaries of forbidden regions with the lines along the axes.
-/

namespace PolygonNesting

/-! ## §1  Fractions -/

structure Rational where
  numerator : ℤ
  denominator : ℤ
  deriving DecidableEq

structure RationalPoint where
  x : Rational
  y : Rational
  deriving DecidableEq

def rational (value : ℤ) : Rational := ⟨value, 1⟩

/-- The loop of Euclid's algorithm; the remainder has the sign of `a`. -/
def divisorLoop (a b : ℤ) : ℤ :=
  if b = 0 then a else divisorLoop b (a.tmod b)
termination_by b.natAbs
decreasing_by
  rw [Int.natAbs_tmod]
  exact Nat.mod_lt _ (Int.natAbs_pos.2 (by assumption))

def cellGreatestCommonDivisor (first second : ℤ) : ℤ :=
  let divisor := divisorLoop first second
  if divisor = 0 then 1 else divisor

/-- Without a denominator the fraction is zero. -/
def makeRational (numerator denominator : ℤ) : Rational :=
  if denominator = 0 then rational 0
  else
    let sign := if denominator < 0 then -1 else 1
    let normalizedNumerator := numerator * sign
    let normalizedDenominator := denominator * sign
    let divisor := cellGreatestCommonDivisor |normalizedNumerator| normalizedDenominator
    { numerator := normalizedNumerator.tdiv divisor
      denominator := normalizedDenominator.tdiv divisor }

def addRational (first second : Rational) : Rational :=
  makeRational
    (first.numerator * second.denominator + second.numerator * first.denominator)
    (first.denominator * second.denominator)

def subtractRational (first second : Rational) : Rational :=
  makeRational
    (first.numerator * second.denominator - second.numerator * first.denominator)
    (first.denominator * second.denominator)

def subtractRationalPoints (first second : RationalPoint) : RationalPoint where
  x := subtractRational first.x second.x
  y := subtractRational first.y second.y

def compareRational (first second : Rational) : Ordering :=
  compare (first.numerator * second.denominator) (second.numerator * first.denominator)

/-- To the nearest integer, a half away from zero. -/
def roundRational (value : Rational) : ℤ :=
  let quotient := value.numerator.tdiv value.denominator
  let remainder := value.numerator.tmod value.denominator
  if remainder = 0 then quotient
  else
    let direction := if value.numerator < 0 then -1 else 1
    if value.denominator ≤ |remainder| * 2 then quotient + direction else quotient

/-- The candidates without repetition. -/
def uniqueCandidates (candidates : List ℤ) : List ℤ :=
  candidates.foldl (fun unique candidate =>
    if candidate ∈ unique then unique else unique ++ [candidate]) []

def canonicalGridAlternatives (value : Rational) : List ℤ :=
  let quotient := value.numerator.tdiv value.denominator
  let remainder := value.numerator.tmod value.denominator
  let floor := if remainder < 0 then quotient - 1 else quotient
  let ceil := if 0 < remainder then quotient + 1 else quotient
  (uniqueCandidates [roundRational value, floor, ceil]).mergeSort fun first second =>
    decide (first ≤ second)

def rationalText (value : Rational) : String :=
  toString value.numerator ++ "/" ++ toString value.denominator

def rationalPointKey (point : RationalPoint) : String :=
  rationalText point.x ++ "," ++ rationalText point.y

/-! ## §2  Cutting a boundary -/

/-- The edges of a closed ring. -/
def forbiddenEdges (points : List GridPoint) : List (GridPoint × GridPoint) :=
  points.zip (points.tail ++ points.take 1)

def rationalGridPoint (point : GridPoint) : RationalPoint := ⟨rational point.x, rational point.y⟩

/-- The coordinate along the axis, and the other one. -/
def GridPoint.along (axisIsY : Bool) (point : GridPoint) : ℤ := if axisIsY then point.y else point.x

def GridPoint.across (axisIsY : Bool) (point : GridPoint) : ℤ :=
  if axisIsY then point.x else point.y

/-- The points at which an edge meets the line where the axis has the value. -/
def edgeLineIntersections (axisIsY : Bool) (value : ℤ) (edge : GridPoint × GridPoint) :
    List RationalPoint :=
  let first := edge.1
  let second := edge.2
  let firstValue := first.along axisIsY
  let secondValue := second.along axisIsY
  if value < firstValue ∧ value < secondValue ∨ firstValue < value ∧ secondValue < value then []
  else if firstValue = secondValue then
    if firstValue = value then [rationalGridPoint first, rationalGridPoint second] else []
  else
    let numerator := value - firstValue
    let denominator := secondValue - firstValue
    let other := addRational (rational (first.across axisIsY))
      (makeRational ((second.across axisIsY - first.across axisIsY) * numerator) denominator)
    [if axisIsY then ⟨other, rational value⟩ else ⟨rational value, other⟩]

/-- `boundary_line_intersections`; of a boundary it reads the points only. -/
def boundaryLineIntersections (boundaries : List (List GridPoint)) (axisIsY : Bool)
    (value : ℤ) : List RationalPoint :=
  (OrderedMap.fill rationalPointKey (boundaries.flatMap fun points =>
    (forbiddenEdges points).flatMap (edgeLineIntersections axisIsY value))).map Prod.snd

/-! ## §3  Values -/

def Rational.value (r : Rational) : ℚ := r.numerator / r.denominator

/-- Lowest terms over a positive denominator. -/
structure Rational.Normal (r : Rational) : Prop where
  pos : 0 < r.denominator
  coprime : r.numerator.natAbs.Coprime r.denominator.natAbs

/-- The fraction of a number. -/
def ofRat (q : ℚ) : Rational := ⟨q.num, q.den⟩

theorem normal_ofRat (q : ℚ) : (ofRat q).Normal where
  pos := Int.natCast_pos.2 q.den_pos
  coprime := q.reduced

@[simp] theorem value_ofRat (q : ℚ) : (ofRat q).value = q := Rat.num_div_den q

/-- Lowest terms are unique. -/
theorem ofRat_div {numerator denominator : ℤ} (hpos : 0 < denominator)
    (hcoprime : numerator.natAbs.Coprime denominator.natAbs) :
    ofRat (numerator / denominator) = ⟨numerator, denominator⟩ := by
  unfold ofRat
  rw [Rat.num_div_eq_of_coprime hpos hcoprime, Rat.den_div_eq_of_coprime hpos hcoprime]

theorem Rational.Normal.eq_ofRat {r : Rational} (h : r.Normal) : r = ofRat r.value :=
  (ofRat_div h.pos h.coprime).symm

theorem rational_eq (value : ℤ) : rational value = ofRat value := rfl

theorem divisorLoop_eq {a b : ℤ} (ha : 0 ≤ a) (hb : 0 ≤ b) :
    divisorLoop a b = (a.gcd b : ℤ) := by
  induction hn : b.natAbs using Nat.strongRecOn generalizing a b with
  | ind n ih =>
      unfold divisorLoop
      split
      · rename_i hzero
        rw [hzero, Int.gcd_zero_right, Int.natAbs_of_nonneg ha]
      · rename_i hne
        have hlt : (a.tmod b).natAbs < n := by
          rw [Int.natAbs_tmod, ← hn]
          exact Nat.mod_lt _ (Int.natAbs_pos.2 hne)
        rw [ih _ hlt hb (Int.tmod_nonneg b ha) rfl]
        unfold Int.gcd
        rw [Int.natAbs_tmod, Nat.gcd_comm, ← Nat.gcd_rec, Nat.gcd_comm]

theorem cellGreatestCommonDivisor_eq {a b : ℤ} (ha : 0 ≤ a) (hb : 0 < b) :
    cellGreatestCommonDivisor a b = (a.gcd b : ℤ) := by
  have hpos : (a.gcd b : ℤ) ≠ 0 := by
    simp [Int.gcd_eq_zero_iff, hb.ne']
  unfold cellGreatestCommonDivisor
  rw [divisorLoop_eq ha hb.le, if_neg hpos]

/-- **The fraction of a quotient.** -/
theorem makeRational_eq (numerator denominator : ℤ) :
    makeRational numerator denominator = ofRat (numerator / denominator) := by
  unfold makeRational
  split
  · rename_i hzero
    rw [hzero, Int.cast_zero, div_zero]
    rfl
  · rename_i hne
    obtain ⟨sign, hsign, hpos, hunit⟩ : ∃ sign : ℤ,
        (if denominator < 0 then -1 else 1) = sign ∧ 0 < denominator * sign ∧ sign ≠ 0 := by
      by_cases hneg : denominator < 0
      · exact ⟨-1, if_pos hneg, by omega, by decide⟩
      · exact ⟨1, if_neg hneg, by omega, by decide⟩
    dsimp only
    rw [hsign, cellGreatestCommonDivisor_eq (abs_nonneg _) hpos]
    have habs : Int.gcd |numerator * sign| (denominator * sign) =
        (numerator * sign).gcd (denominator * sign) := by
      unfold Int.gcd
      rw [Int.natAbs_abs]
    rw [habs]
    obtain ⟨m, n, hcoprime, hm, hn⟩ := Int.exists_gcd_one
      (Int.gcd_pos_of_ne_zero_right (numerator * sign) hpos.ne')
    set divisor := (numerator * sign).gcd (denominator * sign) with hdivisor
    have hne' : (divisor : ℤ) ≠ 0 := by
      intro hzero
      rw [hn, hzero, mul_zero] at hpos
      exact lt_irrefl 0 hpos
    have hnpos : 0 < n := by
      rw [hn] at hpos
      exact pos_of_mul_pos_left hpos (Int.natCast_nonneg _)
    have hvalue : (numerator / denominator : ℚ) = m / n := by
      rw [← mul_div_mul_right _ _ (Int.cast_ne_zero.2 hunit), ← Int.cast_mul, ← Int.cast_mul,
        hm, hn, Int.cast_mul, Int.cast_mul, mul_div_mul_right _ _ (Int.cast_ne_zero.2 hne')]
    rw [hvalue, ofRat_div hnpos hcoprime, hm, hn,
      Int.mul_tdiv_cancel m hne', Int.mul_tdiv_cancel n hne']

theorem Rational.Normal.denominator_ne {r : Rational} (h : r.Normal) :
    (r.denominator : ℚ) ≠ 0 :=
  Int.cast_ne_zero.2 h.pos.ne'

theorem addRational_eq {first second : Rational} (hfirst : first.Normal)
    (hsecond : second.Normal) :
    addRational first second = ofRat (first.value + second.value) := by
  unfold addRational Rational.value
  rw [makeRational_eq, div_add_div _ _ hfirst.denominator_ne hsecond.denominator_ne]
  push_cast
  ring_nf

theorem subtractRational_eq {first second : Rational} (hfirst : first.Normal)
    (hsecond : second.Normal) :
    subtractRational first second = ofRat (first.value - second.value) := by
  unfold subtractRational Rational.value
  rw [makeRational_eq, div_sub_div _ _ hfirst.denominator_ne hsecond.denominator_ne]
  push_cast
  ring_nf

/-! ## §4  Rounding -/

/-- Nearest, and of two nearest integers the one further from zero. -/
structure IsRoundedAway (q : ℚ) (n : ℤ) : Prop where
  nearest : ∀ m : ℤ, |q - n| ≤ |q - m|
  away : ∀ m : ℤ, |q - m| = |q - n| → |m| ≤ |n|

/-- A number between two integers, not further from zero than one of them. -/
theorem abs_le_of_tie {q : ℚ} {m n : ℤ} (hne : m ≠ n) (hn : |q - n| = 1 / 2)
    (hm : |q - m| = 1 / 2) (hq : |q| ≤ |(n : ℚ)|) : |m| ≤ |n| := by
  have hself := le_abs_self q
  have hneg := neg_abs_le q
  have hhalf : (0 : ℚ) ≤ 1 / 2 := by norm_num
  rcases (abs_eq hhalf).1 hn with hn | hn <;> rcases (abs_eq hhalf).1 hm with hm | hm
  · exact absurd (Int.cast_injective (show (m : ℚ) = n by linarith)) hne
  · have hsucc : m = n + 1 := Int.cast_injective (α := ℚ) (by push_cast; linarith)
    have hlt : n < 0 := by
      by_contra hnonneg
      have hcast : (0 : ℚ) ≤ n := Int.cast_nonneg (not_lt.1 hnonneg)
      rw [abs_of_nonneg hcast] at hq
      linarith
    rw [abs_of_neg hlt, abs_of_nonpos (by omega)]
    omega
  · have hpred : m = n - 1 := Int.cast_injective (α := ℚ) (by push_cast; linarith)
    have hlt : 0 < n := by
      by_contra hnonpos
      have hcast : (n : ℚ) ≤ 0 := Int.cast_nonpos.2 (not_lt.1 hnonpos)
      rw [abs_of_nonpos hcast] at hq
      linarith
    rw [abs_of_pos hlt, abs_of_nonneg (by omega)]
    omega
  · exact absurd (Int.cast_injective (show (m : ℚ) = n by linarith)) hne

theorem IsRoundedAway.of_half {q : ℚ} {n : ℤ} (hhalf : |q - n| ≤ 1 / 2)
    (htie : |q - n| = 1 / 2 → |q| ≤ |(n : ℚ)|) : IsRoundedAway q n := by
  have hfar : ∀ m : ℤ, m ≠ n → 1 ≤ |(m : ℚ) - n| := by
    intro m hm
    have hone : 1 ≤ |m - n| := Int.one_le_abs (sub_ne_zero.2 hm)
    exact_mod_cast hone
  have hle : ∀ m : ℤ, |(m : ℚ) - n| ≤ |q - n| + |q - m| := by
    intro m
    have habs := abs_sub (q - n) (q - m)
    rwa [sub_sub_sub_cancel_left] at habs
  refine ⟨fun m => ?_, fun m hm => ?_⟩
  · by_cases h : m = n
    · rw [h]
    · have h1 := hfar m h
      have h2 := hle m
      linarith
  · by_cases h : m = n
    · rw [h]
    · have h1 := hfar m h
      have h2 := hle m
      have hn : |q - n| = 1 / 2 := by linarith
      exact abs_le_of_tie h hn (hm.trans hn) (htie hn)

theorem Rational.Normal.truncates {r : Rational} (h : r.Normal) :
    r.value = r.numerator.tdiv r.denominator +
        (r.numerator.tmod r.denominator : ℚ) / r.denominator ∧
      |(r.numerator.tmod r.denominator : ℚ) / r.denominator| < 1 := by
  have hpos : (0 : ℚ) < r.denominator := Int.cast_pos.2 h.pos
  have hdiv : (r.numerator : ℚ) = r.denominator * r.numerator.tdiv r.denominator +
      r.numerator.tmod r.denominator := by
    exact_mod_cast (Int.mul_tdiv_add_tmod _ _).symm
  constructor
  · unfold Rational.value
    rw [hdiv, add_div, mul_div_cancel_left₀ _ hpos.ne']
  · rw [abs_div, abs_of_pos hpos, div_lt_one hpos]
    have hlt := Int.tmod_lt_of_pos r.numerator h.pos
    have hgt := Int.lt_tmod_of_pos r.numerator h.pos
    exact_mod_cast abs_lt.2 ⟨hgt, hlt⟩

/-- The remainder has the sign of the numerator, and so has the quotient. -/
theorem Rational.Normal.signs {r : Rational} (h : r.Normal) :
    (r.numerator < 0 → r.numerator.tdiv r.denominator ≤ 0 ∧
      r.numerator.tmod r.denominator ≤ 0) ∧
    (0 ≤ r.numerator → 0 ≤ r.numerator.tdiv r.denominator ∧
      0 ≤ r.numerator.tmod r.denominator) := by
  constructor
  · intro hneg
    obtain ⟨n, hn⟩ : ∃ n : ℤ, r.numerator = -n := ⟨-r.numerator, (neg_neg _).symm⟩
    have hpos : 0 ≤ n := by omega
    rw [hn, Int.neg_tdiv, Int.neg_tmod]
    have hdiv := Int.tdiv_nonneg hpos h.pos.le
    have hmod := Int.tmod_nonneg r.denominator hpos
    omega
  · intro hpos
    exact ⟨Int.tdiv_nonneg hpos h.pos.le, Int.tmod_nonneg _ hpos⟩

/-- **Rounding takes the nearest integer, a half away from zero.** -/
theorem roundRational_spec {r : Rational} (h : r.Normal) :
    IsRoundedAway r.value (roundRational r) := by
  obtain ⟨hvalue, hlt⟩ := h.truncates
  obtain ⟨hnegative, hpositive⟩ := h.signs
  have hpos : (0 : ℚ) < r.denominator := Int.cast_pos.2 h.pos
  unfold roundRational
  generalize r.numerator.tdiv r.denominator = quotient at *
  generalize hremainder : r.numerator.tmod r.denominator = remainder at *
  have hhalf : r.denominator ≤ |remainder| * 2 ↔
      1 / 2 ≤ |(remainder : ℚ) / r.denominator| := by
    rw [abs_div, abs_of_pos hpos, div_le_div_iff₀ two_pos hpos, one_mul]
    exact_mod_cast Iff.rfl
  generalize hx : (remainder : ℚ) / r.denominator = x at *
  dsimp only
  split
  · rename_i hzero
    have hx : x = 0 := by rw [← hx, hzero, Int.cast_zero, zero_div]
    refine .of_half ?_ ?_
    · rw [hvalue, hx]
      norm_num
    · intro _
      rw [hvalue, hx, add_zero]
  · rename_i hzero
    by_cases hneg : r.numerator < 0
    · obtain ⟨hquotient, hrest⟩ := hnegative hneg
      have hquotient : (quotient : ℚ) ≤ 0 := Int.cast_nonpos.2 hquotient
      have hx0 : x ≤ 0 := hx ▸ div_nonpos_of_nonpos_of_nonneg (Int.cast_nonpos.2 hrest) hpos.le
      rw [abs_of_nonpos hx0] at hlt hhalf
      rw [if_pos hneg, hvalue]
      split
      · rename_i hle
        have hle := hhalf.1 hle
        refine .of_half ?_ fun _ => ?_
        · push_cast
          rw [abs_le]
          constructor <;> linarith
        · push_cast
          rw [abs_of_nonpos (by linarith), abs_of_nonpos (by linarith)]
          linarith
      · rename_i hle
        have hle := mt hhalf.2 hle
        refine .of_half ?_ fun htie => ?_
        · rw [add_sub_cancel_left, abs_of_nonpos hx0]
          exact (not_le.1 hle).le
        · rw [add_sub_cancel_left, abs_of_nonpos hx0] at htie
          exact absurd htie.ge hle
    · obtain ⟨hquotient, hrest⟩ := hpositive (not_lt.1 hneg)
      have hquotient : (0 : ℚ) ≤ quotient := Int.cast_nonneg hquotient
      have hx0 : 0 ≤ x := hx ▸ div_nonneg (Int.cast_nonneg hrest) hpos.le
      rw [abs_of_nonneg hx0] at hlt hhalf
      rw [if_neg hneg, hvalue]
      split
      · rename_i hle
        have hle := hhalf.1 hle
        refine .of_half ?_ fun _ => ?_
        · push_cast
          rw [abs_le]
          constructor <;> linarith
        · push_cast
          rw [abs_of_nonneg (by linarith), abs_of_nonneg (by linarith)]
          linarith
      · rename_i hle
        have hle := mt hhalf.2 hle
        refine .of_half ?_ fun htie => ?_
        · rw [add_sub_cancel_left, abs_of_nonneg hx0]
          exact (not_le.1 hle).le
        · rw [add_sub_cancel_left, abs_of_nonneg hx0] at htie
          exact absurd htie.ge hle

/-- The integers around a number, as the division gives them. -/
theorem Rational.Normal.floor_ceil {r : Rational} (h : r.Normal) :
    (if r.numerator.tmod r.denominator < 0 then r.numerator.tdiv r.denominator - 1
      else r.numerator.tdiv r.denominator) = ⌊r.value⌋ ∧
    (if 0 < r.numerator.tmod r.denominator then r.numerator.tdiv r.denominator + 1
      else r.numerator.tdiv r.denominator) = ⌈r.value⌉ := by
  obtain ⟨hvalue, hlt⟩ := h.truncates
  have hpos : (0 : ℚ) < r.denominator := Int.cast_pos.2 h.pos
  generalize r.numerator.tdiv r.denominator = quotient at *
  generalize r.numerator.tmod r.denominator = remainder at *
  rw [eq_comm, Int.floor_eq_iff, @eq_comm _ _ ⌈r.value⌉, Int.ceil_eq_iff, hvalue]
  rcases lt_trichotomy remainder 0 with hrest | hrest | hrest
  · have hx := div_neg_of_neg_of_pos (Int.cast_lt_zero.2 hrest) hpos
    rw [abs_of_neg hx] at hlt
    rw [if_pos hrest, if_neg hrest.not_gt]
    push_cast
    refine ⟨⟨?_, ?_⟩, ?_, ?_⟩ <;> linarith
  · rw [if_neg hrest.not_lt, if_neg hrest.not_gt, hrest, Int.cast_zero, zero_div]
    refine ⟨⟨?_, ?_⟩, ?_, ?_⟩ <;> linarith
  · have hx := div_pos (Int.cast_pos.2 hrest) hpos
    rw [abs_of_pos hx] at hlt
    rw [if_neg hrest.not_gt, if_pos hrest]
    push_cast
    refine ⟨⟨?_, ?_⟩, ?_, ?_⟩ <;> linarith

theorem IsRoundedAway.floor_or_ceil {q : ℚ} {n : ℤ} (h : IsRoundedAway q n) :
    n = ⌊q⌋ ∨ n = ⌈q⌉ := by
  have hfloor := h.nearest ⌊q⌋
  rw [abs_of_nonneg (sub_nonneg.2 (Int.floor_le q))] at hfloor
  have hnext := Int.lt_floor_add_one q
  have hlt := abs_lt.1 (show |q - n| < 1 by linarith)
  rcases le_total (n : ℚ) q with hle | hle
  · left
    rw [eq_comm, Int.floor_eq_iff]
    exact ⟨hle, by linarith⟩
  · right
    rw [eq_comm, Int.ceil_eq_iff]
    exact ⟨by linarith, hle⟩

theorem uniqueCandidates_spec (candidates : List ℤ) :
    (uniqueCandidates candidates).Nodup ∧
      ∀ n, n ∈ uniqueCandidates candidates ↔ n ∈ candidates := by
  unfold uniqueCandidates
  induction candidates using List.reverseRecOn with
  | nil => exact ⟨List.nodup_nil, fun _ => Iff.rfl⟩
  | append_singleton candidates candidate ih =>
      obtain ⟨hnodup, hmem⟩ := ih
      rw [List.foldl_concat]
      split
      · rename_i h
        refine ⟨hnodup, fun n => ?_⟩
        rw [hmem, List.mem_append, List.mem_singleton]
        refine ⟨.inl, ?_⟩
        rintro (hn | rfl)
        · exact hn
        · exact (hmem _).1 h
      · rename_i h
        refine ⟨hnodup.append (List.nodup_singleton _) (List.disjoint_singleton.2 h), fun n => ?_⟩
        rw [List.mem_append, List.mem_append, hmem]

/-- **The alternatives are floor and ceiling, in order and each once.** -/
theorem canonicalGridAlternatives_spec {r : Rational} (h : r.Normal) :
    (canonicalGridAlternatives r).Pairwise (· < ·) ∧
      ∀ n, n ∈ canonicalGridAlternatives r ↔ n = ⌊r.value⌋ ∨ n = ⌈r.value⌉ := by
  obtain ⟨hfloor, hceil⟩ := h.floor_ceil
  have hround := (roundRational_spec h).floor_or_ceil
  unfold canonicalGridAlternatives
  dsimp only
  rw [hfloor, hceil]
  obtain ⟨hnodup, hmem⟩ := uniqueCandidates_spec [roundRational r, ⌊r.value⌋, ⌈r.value⌉]
  constructor
  · have hsorted : ((uniqueCandidates [roundRational r, ⌊r.value⌋, ⌈r.value⌉]).mergeSort
        fun first second : ℤ => decide (first ≤ second)).Pairwise fun first second =>
          decide (first ≤ second) = true :=
      List.pairwise_mergeSort (by simpa using fun _ _ _ => le_trans)
        (by simpa using fun _ _ => le_total _ _) _
    have hdistinct := (List.mergeSort_perm _ fun first second : ℤ =>
      decide (first ≤ second)).nodup_iff.2 hnodup
    refine (hsorted.and hdistinct).imp fun hboth => ?_
    exact lt_of_le_of_ne (of_decide_eq_true hboth.1) hboth.2
  · intro n
    rw [List.mem_mergeSort, hmem]
    simp only [List.mem_cons, List.not_mem_nil, or_false]
    refine ⟨?_, .inr⟩
    rintro (rfl | hn)
    · exact hround
    · exact hn

/-! ## §5  Keys -/

theorem rationalText_injective : Function.Injective rationalText := by
  intro first second h
  have hclean : ∀ n : ℤ, '/' ∉ (toString n).toList := fun n hmem =>
    ne_of_mem_toString hmem (by decide) (by decide) rfl
  unfold rationalText at h
  rw [String.append_assoc, String.append_assoc] at h
  obtain ⟨hnumerator, hdenominator⟩ := SeparatedText.append_inj (show "/".toList = ['/'] from rfl)
    (hclean _) (hclean _) h
  cases first
  cases second
  rw [Rational.mk.injEq]
  exact ⟨toString_int_injective hnumerator, toString_int_injective hdenominator⟩

theorem notMem_rationalText (r : Rational) : ',' ∉ (rationalText r).toList := by
  have hclean : ∀ n : ℤ, ',' ∉ (toString n).toList := fun n hmem =>
    ne_of_mem_toString hmem (by decide) (by decide) rfl
  unfold rationalText
  rw [String.toList_append, String.toList_append, List.mem_append, List.mem_append]
  rintro ((h | h) | h)
  · exact hclean _ h
  · revert h
    decide
  · exact hclean _ h

/-- **Keys are equal for equal points only.** -/
theorem rationalPointKey_injective : Function.Injective rationalPointKey := by
  intro first second h
  unfold rationalPointKey at h
  rw [String.append_assoc, String.append_assoc] at h
  obtain ⟨hx, hy⟩ := SeparatedText.append_inj (show ",".toList = [','] from rfl)
    (notMem_rationalText _) (notMem_rationalText _) h
  cases first
  cases second
  rw [RationalPoint.mk.injEq]
  exact ⟨rationalText_injective hx, rationalText_injective hy⟩

/-! ## §6  Cuts -/

structure RationalPoint.Normal (point : RationalPoint) : Prop where
  x : point.x.Normal
  y : point.y.Normal

def RationalPoint.value (point : RationalPoint) : ℚ × ℚ := (point.x.value, point.y.value)

def GridPoint.value (point : GridPoint) : ℚ × ℚ := (point.x, point.y)

theorem RationalPoint.Normal.eq_of_value {first second : RationalPoint} (hfirst : first.Normal)
    (hsecond : second.Normal) (h : first.value = second.value) : first = second := by
  obtain ⟨hx, hy⟩ := Prod.mk.inj h
  have hxs : first.x = second.x := by
    rw [hfirst.x.eq_ofRat, hsecond.x.eq_ofRat, hx]
  have hys : first.y = second.y := by
    rw [hfirst.y.eq_ofRat, hsecond.y.eq_ofRat, hy]
  cases first
  cases second
  rw [RationalPoint.mk.injEq]
  exact ⟨hxs, hys⟩

/-- **Equal keys, equal points.** -/
theorem rationalPointKey_eq_iff {first second : RationalPoint} (hfirst : first.Normal)
    (hsecond : second.Normal) :
    rationalPointKey first = rationalPointKey second ↔ first.value = second.value :=
  ⟨fun h => congrArg RationalPoint.value (rationalPointKey_injective h),
    fun h => congrArg rationalPointKey (hfirst.eq_of_value hsecond h)⟩

def axisPoint (axisIsY : Bool) (along across : ℚ) : ℚ × ℚ :=
  if axisIsY then (across, along) else (along, across)

def alongAxis (axisIsY : Bool) (q : ℚ × ℚ) : ℚ := if axisIsY then q.2 else q.1

def acrossAxis (axisIsY : Bool) (q : ℚ × ℚ) : ℚ := if axisIsY then q.1 else q.2

/-- Where an edge meets the line: at its ends if it lies on the line. -/
def EdgeMeetsLine (axisIsY : Bool) (value : ℤ) (edge : GridPoint × GridPoint) (q : ℚ × ℚ) :
    Prop :=
  if edge.1.along axisIsY = value ∧ edge.2.along axisIsY = value then
    q = edge.1.value ∨ q = edge.2.value
  else q ∈ segment ℚ edge.1.value edge.2.value ∧ alongAxis axisIsY q = value

theorem eq_axisPoint_iff {axisIsY : Bool} {q : ℚ × ℚ} {along across : ℚ} :
    q = axisPoint axisIsY along across ↔
      alongAxis axisIsY q = along ∧ acrossAxis axisIsY q = across := by
  unfold axisPoint alongAxis acrossAxis
  cases axisIsY
  · exact Prod.ext_iff
  · exact Prod.ext_iff.trans and_comm

theorem mem_segment_iff {axisIsY : Bool} {first second : GridPoint} {q : ℚ × ℚ} :
    q ∈ segment ℚ first.value second.value ↔ ∃ t : ℚ, 0 ≤ t ∧ t ≤ 1 ∧
      alongAxis axisIsY q = first.along axisIsY +
        t * (second.along axisIsY - first.along axisIsY) ∧
      acrossAxis axisIsY q = first.across axisIsY +
        t * (second.across axisIsY - first.across axisIsY) := by
  have hsegment : q ∈ segment ℚ first.value second.value ↔ ∃ t : ℚ, 0 ≤ t ∧ t ≤ 1 ∧
      q.1 = first.x + t * (second.x - first.x) ∧ q.2 = first.y + t * (second.y - first.y) := by
    rw [segment_eq_image']
    constructor
    · rintro ⟨t, ⟨h0, h1⟩, rfl⟩
      exact ⟨t, h0, h1, rfl, rfl⟩
    · rintro ⟨t, h0, h1, hx, hy⟩
      exact ⟨t, ⟨h0, h1⟩, Prod.ext hx.symm hy.symm⟩
  rw [hsegment]
  cases axisIsY
  · exact Iff.rfl
  · exact exists_congr fun t => and_congr_right fun _ => and_congr_right fun _ => and_comm

/-- No point of an edge beside the line is on it. -/
theorem ne_of_beside {first second value : ℤ} {t : ℚ} (h0 : 0 ≤ t) (h1 : t ≤ 1)
    (h : value < first ∧ value < second ∨ first < value ∧ second < value) :
    (first : ℚ) + t * (second - first) ≠ value := by
  intro hvalue
  rcases h with ⟨hfirst, hsecond⟩ | ⟨hfirst, hsecond⟩
  · have hfirst : (value : ℚ) < first := Int.cast_lt.2 hfirst
    have hsecond : (value : ℚ) < second := Int.cast_lt.2 hsecond
    rcases le_total (first : ℚ) second with hle | hle <;> nlinarith
  · have hfirst : (first : ℚ) < value := Int.cast_lt.2 hfirst
    have hsecond : (second : ℚ) < value := Int.cast_lt.2 hsecond
    rcases le_total (first : ℚ) second with hle | hle <;> nlinarith

/-- One point of any other edge that is not on the line is. -/
theorem exists_crossing_iff {first second value firstOther secondOther : ℤ} {other : ℚ}
    (h : ¬ (value < first ∧ value < second ∨ first < value ∧ second < value))
    (hne : first ≠ second) :
    (∃ t : ℚ, 0 ≤ t ∧ t ≤ 1 ∧ (value : ℚ) = first + t * (second - first) ∧
      other = firstOther + t * (secondOther - firstOther)) ↔
    other = firstOther + (secondOther - firstOther) * (value - first) / (second - first) := by
  have hne' : (second : ℚ) - first ≠ 0 := sub_ne_zero.2 (Int.cast_injective.ne hne.symm)
  constructor
  · rintro ⟨t, -, -, hvalue, hother⟩
    have ht : t = (value - first) / (second - first) := by
      rw [eq_div_iff hne', hvalue]
      ring
    rw [hother, ht]
    ring
  · intro hother
    have hbetween : 0 ≤ ((value : ℚ) - first) / (second - first) ∧
        ((value : ℚ) - first) / (second - first) ≤ 1 := by
      rcases lt_or_gt_of_ne hne with hlt | hlt
      · have hpos : (0 : ℚ) < second - first := sub_pos.2 (Int.cast_lt.2 hlt)
        have h0 : (first : ℚ) ≤ value := Int.cast_le.2 (by omega)
        have h1 : (value : ℚ) ≤ second := Int.cast_le.2 (by omega)
        exact ⟨div_nonneg (sub_nonneg.2 h0) hpos.le, (div_le_one hpos).2 (by linarith)⟩
      · have hpos : (0 : ℚ) < first - second := sub_pos.2 (Int.cast_lt.2 hlt)
        have h0 : (value : ℚ) ≤ first := Int.cast_le.2 (by omega)
        have h1 : (second : ℚ) ≤ value := Int.cast_le.2 (by omega)
        rw [← neg_div_neg_eq, neg_sub, neg_sub]
        exact ⟨div_nonneg (sub_nonneg.2 h0) hpos.le, (div_le_one hpos).2 (by linarith)⟩
    refine ⟨(value - first) / (second - first), hbetween.1, hbetween.2, ?_, ?_⟩
    · rw [div_mul_cancel₀ _ hne']
      ring
    · rw [hother]
      ring

/-- Where the edge meets the line, if not along it. -/
def crossing (axisIsY : Bool) (value : ℤ) (edge : GridPoint × GridPoint) : ℚ :=
  edge.1.across axisIsY + (edge.2.across axisIsY - edge.1.across axisIsY) *
    (value - edge.1.along axisIsY) / (edge.2.along axisIsY - edge.1.along axisIsY)

theorem edgeMeetsLine_crossing_iff {axisIsY : Bool} {value : ℤ} {edge : GridPoint × GridPoint}
    {q : ℚ × ℚ}
    (h : ¬ (value < edge.1.along axisIsY ∧ value < edge.2.along axisIsY ∨
      edge.1.along axisIsY < value ∧ edge.2.along axisIsY < value))
    (hne : edge.1.along axisIsY ≠ edge.2.along axisIsY) :
    EdgeMeetsLine axisIsY value edge q ↔
      q = axisPoint axisIsY value (crossing axisIsY value edge) := by
  unfold EdgeMeetsLine
  rw [if_neg (by omega), @mem_segment_iff axisIsY, eq_axisPoint_iff]
  unfold crossing
  rw [← exists_crossing_iff h hne]
  constructor
  · rintro ⟨⟨t, h0, h1, halong, hacross⟩, hline⟩
    exact ⟨hline, t, h0, h1, hline ▸ halong, hacross⟩
  · rintro ⟨hline, t, h0, h1, halong, hacross⟩
    exact ⟨⟨t, h0, h1, hline.trans halong, hacross⟩, hline⟩

theorem eq_point_iff {point : RationalPoint} {x y : ℚ} :
    point = ⟨ofRat x, ofRat y⟩ ↔ point.Normal ∧ point.value = (x, y) := by
  have hpoint : RationalPoint.Normal ⟨ofRat x, ofRat y⟩ := ⟨normal_ofRat x, normal_ofRat y⟩
  have hvalue : RationalPoint.value ⟨ofRat x, ofRat y⟩ = (x, y) := by
    unfold RationalPoint.value
    rw [value_ofRat, value_ofRat]
  constructor
  · rintro rfl
    exact ⟨hpoint, hvalue⟩
  · rintro ⟨hnormal, h⟩
    exact hnormal.eq_of_value hpoint (h.trans hvalue.symm)

theorem eq_rationalGridPoint_iff {point : RationalPoint} {gridPoint : GridPoint} :
    point = rationalGridPoint gridPoint ↔ point.Normal ∧ point.value = gridPoint.value := by
  unfold rationalGridPoint
  rw [rational_eq, rational_eq]
  exact eq_point_iff

theorem mem_edgeLineIntersections {axisIsY : Bool} {value : ℤ} {edge : GridPoint × GridPoint}
    {point : RationalPoint} :
    point ∈ edgeLineIntersections axisIsY value edge ↔
      point.Normal ∧ EdgeMeetsLine axisIsY value edge point.value := by
  unfold edgeLineIntersections
  dsimp only
  split
  · rename_i hbeside
    have hnone : ¬ EdgeMeetsLine axisIsY value edge point.value := by
      unfold EdgeMeetsLine
      rw [if_neg (by omega), @mem_segment_iff axisIsY]
      rintro ⟨⟨t, h0, h1, halong, -⟩, hline⟩
      exact ne_of_beside h0 h1 hbeside (halong.symm.trans hline)
    simp [hnone]
  · rename_i hbeside
    split
    · rename_i heq
      have hon : edge.1.along axisIsY = value := by omega
      unfold EdgeMeetsLine
      rw [if_pos hon, if_pos ⟨hon, heq ▸ hon⟩, List.mem_pair, and_or_left]
      exact or_congr eq_rationalGridPoint_iff eq_rationalGridPoint_iff
    · rename_i hne
      rw [edgeMeetsLine_crossing_iff hbeside hne, List.mem_singleton]
      have hother : addRational (rational (edge.1.across axisIsY))
          (makeRational ((edge.2.across axisIsY - edge.1.across axisIsY) *
            (value - edge.1.along axisIsY)) (edge.2.along axisIsY - edge.1.along axisIsY)) =
          ofRat (crossing axisIsY value edge) := by
        rw [makeRational_eq, rational_eq, addRational_eq (normal_ofRat _) (normal_ofRat _),
          value_ofRat, value_ofRat]
        unfold crossing
        push_cast
        rfl
      rw [hother, rational_eq]
      cases axisIsY
      · exact eq_point_iff
      · exact eq_point_iff

/-- **A cut holds every point at which an edge meets the line, once.** -/
theorem boundaryLineIntersections_spec (boundaries : List (List GridPoint)) (axisIsY : Bool)
    (value : ℤ) :
    ((boundaryLineIntersections boundaries axisIsY value).map RationalPoint.value).Nodup ∧
    (∀ point ∈ boundaryLineIntersections boundaries axisIsY value, point.Normal) ∧
    ∀ q, q ∈ (boundaryLineIntersections boundaries axisIsY value).map RationalPoint.value ↔
      ∃ points ∈ boundaries, ∃ edge ∈ forbiddenEdges points, EdgeMeetsLine axisIsY value edge q := by
  obtain ⟨hnodup, hmem⟩ := OrderedMap.fill_spec rationalPointKey_injective
    (boundaries.flatMap fun points =>
      (forbiddenEdges points).flatMap (edgeLineIntersections axisIsY value))
  have hpoint : ∀ point, point ∈ boundaryLineIntersections boundaries axisIsY value ↔
      point.Normal ∧ ∃ points ∈ boundaries, ∃ edge ∈ forbiddenEdges points,
        EdgeMeetsLine axisIsY value edge point.value := by
    intro point
    unfold boundaryLineIntersections
    rw [hmem]
    simp only [List.mem_flatMap, mem_edgeLineIntersections]
    constructor
    · rintro ⟨points, hpoints, edge, hedge, hnormal, hmeets⟩
      exact ⟨hnormal, points, hpoints, edge, hedge, hmeets⟩
    · rintro ⟨hnormal, points, hpoints, edge, hedge, hmeets⟩
      exact ⟨points, hpoints, edge, hedge, hnormal, hmeets⟩
  have hnormal : ∀ point ∈ boundaryLineIntersections boundaries axisIsY value, point.Normal :=
    fun point h => ((hpoint point).1 h).1
  refine ⟨?_, hnormal, fun q => ?_⟩
  · exact List.Nodup.map_on (fun first hfirst second hsecond h =>
      (hnormal first hfirst).eq_of_value (hnormal second hsecond) h) hnodup
  · rw [List.mem_map]
    constructor
    · rintro ⟨point, h, rfl⟩
      exact ((hpoint point).1 h).2
    · intro h
      obtain ⟨hpt, hvalue⟩ := eq_point_iff.1 (show (⟨ofRat q.1, ofRat q.2⟩ : RationalPoint) =
        ⟨ofRat q.1, ofRat q.2⟩ from rfl)
      exact ⟨_, (hpoint _).2 ⟨hpt, hvalue ▸ h⟩, hvalue⟩

/-- **The rational helpers are exact.** -/
theorem exactRational :
    (∀ numerator denominator : ℤ, (makeRational numerator denominator).Normal ∧
      (makeRational numerator denominator).value = numerator / denominator) ∧
    (∀ first second : Rational, first.Normal → second.Normal →
      ((addRational first second).Normal ∧
        (addRational first second).value = first.value + second.value) ∧
      ((subtractRational first second).Normal ∧
        (subtractRational first second).value = first.value - second.value)) ∧
    (∀ first second : RationalPoint, first.Normal → second.Normal →
      (rationalPointKey first = rationalPointKey second ↔ first.value = second.value)) ∧
    (∀ r : Rational, r.Normal → IsRoundedAway r.value (roundRational r) ∧
      (canonicalGridAlternatives r).Pairwise (· < ·) ∧
      ∀ n, n ∈ canonicalGridAlternatives r ↔ n = ⌊r.value⌋ ∨ n = ⌈r.value⌉) ∧
    ∀ (boundaries : List (List GridPoint)) (axisIsY : Bool) (value : ℤ),
      ((boundaryLineIntersections boundaries axisIsY value).map RationalPoint.value).Nodup ∧
      (∀ point ∈ boundaryLineIntersections boundaries axisIsY value, point.Normal) ∧
      ∀ q, q ∈ (boundaryLineIntersections boundaries axisIsY value).map RationalPoint.value ↔
        ∃ points ∈ boundaries, ∃ edge ∈ forbiddenEdges points,
          EdgeMeetsLine axisIsY value edge q := by
  refine ⟨fun numerator denominator => ?_, fun first second hfirst hsecond => ?_,
    fun _ _ => rationalPointKey_eq_iff,
    fun r hr => ⟨roundRational_spec hr, canonicalGridAlternatives_spec hr⟩,
    boundaryLineIntersections_spec⟩
  · rw [makeRational_eq]
    exact ⟨normal_ofRat _, value_ofRat _⟩
  · rw [addRational_eq hfirst hsecond, subtractRational_eq hfirst hsecond]
    exact ⟨⟨normal_ofRat _, value_ofRat _⟩, normal_ofRat _, value_ofRat _⟩

end PolygonNesting
