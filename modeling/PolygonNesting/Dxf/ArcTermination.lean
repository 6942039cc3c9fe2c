import PolygonNesting.Dxf.Entities
import PolygonNesting.Dxf.QuarterTurns

/-!
# The loop over extreme angles

In binary64 arithmetic the loop over the multiples of a quarter turn ends within five steps
unless the first of them or the limit is too large for the steps, or the sweep passes what five
steps carry where doubles are 64 apart.
-/

namespace PolygonNesting.Dxf

open Binary64 DoubleOps

/-! ## §1  Doubles -/

instance numberAdd : Add Number := ⟨Number.add⟩

instance numberSub : Sub Number := ⟨Number.sub⟩

instance numberMul : Mul Number := ⟨Number.mul⟩

instance numberDiv : Div Number := ⟨Number.div⟩

instance numberOps : DoubleOps Number where
  ofInt := Number.ofInt
  lt := Number.lt
  le := Number.le
  eq := Number.eq
  min := Number.min
  max := Number.max
  ceil := Number.ceil
  remEuclid := Number.remEuclid
  isFinite := Number.isFinite
  toUsize := Number.toUsize

/-! ## §2  The loop -/

theorem extremeAngles_isSome_iff {F : Type} [Add F] [DoubleOps F] (n : ℕ) (angle limit : F) :
    (extremeAngles (n + 1) angle limit).isSome = true ↔
      ∃ i ≤ n, le ((fun a => a + ofInt 90)^[i] angle) limit = false := by
  induction n generalizing angle with
  | zero =>
      unfold extremeAngles
      cases hle : le angle limit with
      | true => simp [extremeAngles, hle]
      | false => simp [hle]
  | succ n ih =>
      rw [extremeAngles]
      cases hle : le angle limit with
      | true =>
          rw [if_pos rfl, Option.isSome_map, ih]
          constructor
          · rintro ⟨i, hi, hstop⟩
            exact ⟨i + 1, by omega, hstop⟩
          · rintro ⟨i, hi, hstop⟩
            cases i with
            | zero => exact absurd (hle.symm.trans hstop) Bool.false_ne_true.symm
            | succ i => exact ⟨i, by omega, hstop⟩
      | false => simpa using ⟨0, Nat.zero_le _, hle⟩

/-- A loop whose test never fails does not end. -/
theorem extremeAngles_eq_none {F : Type} [Add F] [DoubleOps F] {angle limit : F}
    (h : ∀ i, le ((fun a => a + ofInt 90)^[i] angle) limit = true) (fuel : ℕ) :
    extremeAngles fuel angle limit = none := by
  cases fuel with
  | zero => rfl
  | succ n =>
      rw [← Option.not_isSome_iff_eq_none, extremeAngles_isSome_iff]
      rintro ⟨i, -, hi⟩
      exact Bool.false_ne_true (hi.symm.trans (h i))

theorem representable_ninety : Representable 90 := representable_intCast (n := 90) (by norm_num)

theorem representable_turn : Representable 360 := representable_intCast (n := 360) (by norm_num)

theorem ofInt_ninety : Number.ofInt 90 = .finite 90 representable_ninety :=
  Number.ofInt_eq (by norm_num)

theorem ofInt_turn : Number.ofInt 360 = .finite 360 representable_turn :=
  Number.ofInt_eq (by norm_num)

/-- The steps of a double up to 2^60 are those of its value. -/
theorem iterate_finite {f : ℚ} (hf : Representable f) (hle : f ≤ 2 ^ 60) (n : ℕ) :
    ∃ h, (fun a : Number => a + ofInt 90)^[n] (.finite f hf) = .finite (carry^[n] f) h := by
  induction n with
  | zero => exact ⟨hf, rfl⟩
  | succ n ih =>
      obtain ⟨h, ih⟩ := ih
      rw [Function.iterate_succ_apply', Function.iterate_succ_apply', ih]
      have hup := iterate_carry_le hle (n + 1)
      have hdown : f ≤ carry^[n + 1] f := iterate_carry_mono hf.2 (Nat.zero_le (n + 1))
      rw [Function.iterate_succ_apply'] at hup hdown
      have hrange : |carry (carry^[n] f)| < 2 ^ 1024 := by
        rw [abs_lt]
        have := (abs_lt.1 hf.1).1
        exact ⟨this.trans_le hdown, hup.trans_lt (pow_lt_pow_right₀ one_lt_two (by norm_num))⟩
      refine ⟨⟨hrange, roundFinite_carry _⟩, ?_⟩
      show Number.add _ (Number.ofInt 90) = _
      rw [ofInt_ninety]
      show Binary64.round (carry^[n] f + 90) = _
      unfold Binary64.round
      exact dif_pos hrange

/-- A double no step moves. -/
theorem iterate_fixed {f : ℚ} (hf : Representable f) (hfixed : carry f = f) (n : ℕ) :
    (fun a : Number => a + ofInt 90)^[n] (.finite f hf) = .finite f hf := by
  have hstep : (fun a : Number => a + ofInt 90) (.finite f hf) = .finite f hf := by
    show Number.add _ (Number.ofInt 90) = _
    rw [ofInt_ninety]
    show Binary64.round (f + 90) = _
    have hrange : |roundFinite (f + 90)| < 2 ^ 1024 := by
      rw [show roundFinite (f + 90) = f from hfixed]
      exact hf.1
    unfold Binary64.round
    rw [dif_pos hrange]
    simp only [show roundFinite (f + 90) = f from hfixed]
  exact Function.iterate_fixed hstep n

theorem iterate_infinity (negative : Bool) (n : ℕ) :
    (fun a : Number => a + ofInt 90)^[n] (.infinity negative) = .infinity negative := by
  refine Function.iterate_fixed ?_ n
  show Number.add _ (Number.ofInt 90) = _
  rw [ofInt_ninety]
  rfl

theorem representable_two_pow_sixty : Representable (2 ^ 60) := by
  refine ⟨?_, roundFinite_two_pow_sixty⟩
  rw [abs_of_pos (by positivity)]
  exact pow_lt_pow_right₀ one_lt_two (by norm_num)

theorem ofInt_two_pow_sixty :
    Number.ofInt (2 ^ 60) = .finite (2 ^ 60) representable_two_pow_sixty := by
  unfold Number.ofInt
  rw [show (((2 ^ 60 : ℤ)) : ℚ) = 2 ^ 60 by norm_num, round_eq_finite]

/-! ## §3  An accepted arc -/

/-- The multiple of 90 a start begins with. -/
def firstTurn (s : ℚ) : ℤ := ⌈roundFinite (s / 90)⌉

variable {arc : Arc Number} {s : ℚ} {hs : Representable s}

theorem firstExtremeAngle_eq (h : arc.startAngle = .finite s hs) :
    firstExtremeAngle arc = Binary64.round (90 * firstTurn s) := by
  obtain ⟨hq, hdiv⟩ := Number.div_finite hs
    (representable_intCast (n := 90) (by norm_num)) (by norm_num)
  have hquotient : arc.startAngle / ofInt 90 = .finite (roundFinite (s / 90)) (by
      simpa using hq) := by
    rw [h]
    show Number.div _ (Number.ofInt 90) = _
    rw [ofInt_ninety]
    simpa using hdiv
  unfold firstExtremeAngle
  rw [hquotient]
  show Number.mul (Number.ceil _) (Number.ofInt 90) = _
  rw [Number.ceil_finite, ofInt_ninety]
  show Binary64.round (firstTurn s * 90) = _
  rw [mul_comm]

theorem value_of_round {q l : ℚ} {hl : Representable l}
    (h : Binary64.round q = .finite l hl) : l = roundFinite q := by
  unfold Binary64.round at h
  split at h
  · exact (Number.finite.inj h).symm
  · cases h

/-- A finite limit is a rounded sum of the start and at most a turn. -/
theorem exists_of_extremeLimit (h : arc.startAngle = .finite s hs) {l : ℚ} {hl : Representable l}
    (hlimit : extremeLimit arc = .finite l hl) : ∃ w ≤ 360, l = roundFinite (s + w) := by
  have hsweep : (boundsSweep arc).isNan = true ∨ (boundsSweep arc).le (Number.ofInt 360) = true := by
    have hle : ((arc.endAngle - arc.startAngle).remEuclid (Number.ofInt 360)).isNan = true ∨
        ((arc.endAngle - arc.startAngle).remEuclid (Number.ofInt 360)).le (Number.ofInt 360) =
          true := by
      rw [ofInt_turn]
      exact Number.remEuclid_le _ (by norm_num) _
    unfold boundsSweep
    dsimp only
    split
    · right
      show Number.le (Number.ofInt 360) (Number.ofInt 360) = true
      rw [ofInt_turn]
      exact decide_eq_true (le_refl (360 : ℚ))
    · exact hle
  unfold extremeLimit at hlimit
  rw [h] at hlimit
  rw [ofInt_turn] at hsweep
  generalize boundsSweep arc = sweep at hsweep hlimit
  cases sweep with
  | nan => cases hlimit
  | infinity negative => cases hlimit
  | finite w hw =>
      rcases hsweep with hnan | hle
      · cases hnan
      · exact ⟨w, of_decide_eq_true hle, value_of_round hlimit⟩

/-! ## §4  Five iterations -/

/-- The loop is not entered, or its first angle and its limit are small enough for the steps and
the limit is within what five steps carry. -/
def Quick (arc : Arc Number) : Prop :=
  le (firstExtremeAngle arc) (extremeLimit arc) = false ∨
    ∃ first hfirst limit hlimit, firstExtremeAngle arc = .finite first hfirst ∧
      extremeLimit arc = .finite limit hlimit ∧ -2 ^ 60 ≤ first ∧ limit < 2 ^ 60 ∧
        limit < first + fiveTurns first

/-- A loop that is stuck or has a limit beyond the steps does not end. -/
theorem extremeAngles_endless {f : ℚ} (hf : Representable f) {limit : Number}
    (hle : Number.le (.finite f hf) limit = true)
    (h : f < -2 ^ 60 ∨ ∀ l hl, limit = .finite l hl → 2 ^ 60 ≤ l) (fuel : ℕ) :
    extremeAngles fuel (.finite f hf) limit = none := by
  refine extremeAngles_eq_none (fun i => ?_) fuel
  rcases lt_or_ge f (-2 ^ 60) with hlow | hlow
  · rw [iterate_fixed hf (carry_of_lt hf.2 hlow)]
    exact hle
  rcases le_or_gt (2 ^ 60) f with hlarge | hsmall
  · rw [iterate_fixed hf (carry_of_ge hf.2 hlarge)]
    exact hle
  obtain ⟨hi, heq⟩ := iterate_finite hf hsmall.le i
  rw [heq]
  have hlimit := h.resolve_left (not_lt.2 hlow)
  cases limit with
  | nan => cases hle
  | infinity negative => exact hle
  | finite l hl => exact decide_eq_true ((iterate_carry_le hsmall.le i).trans (hlimit l hl rfl))

/-- **The loop ends within five iterations** for exactly the quick arcs. -/
theorem arcAngles_isSome_iff {parse : String → Option Number} {pairs : List (ℤ × String)}
    {arc : Arc Number} (h : parseArc parse pairs = .ok arc) :
    (arcAngles 6 arc).isSome = true ↔ Quick arc := by
  obtain ⟨-, hfinite, -⟩ := parseArc_spec parse h
  obtain ⟨s, hs, hstart⟩ : ∃ s hs, arc.startAngle = .finite s hs := by
    generalize arc.startAngle = start at hfinite
    cases start with
    | nan => cases hfinite
    | infinity negative => cases hfinite
    | finite s hs => exact ⟨s, hs, rfl⟩
  have hfirst := firstExtremeAngle_eq hstart
  unfold arcAngles Quick
  rw [Option.isSome_map]
  cases hle : le (firstExtremeAngle arc) (extremeLimit arc) with
  | false =>
      refine iff_of_true ?_ (.inl rfl)
      rw [extremeAngles_isSome_iff]
      exact ⟨0, Nat.zero_le 5, hle⟩
  | true =>
      rw [or_iff_right Bool.false_ne_true.symm]
      generalize hvalue : firstExtremeAngle arc = angle at hle hfirst
      cases angle with
      | nan => cases hle
      | infinity negative =>
          refine iff_of_false ?_ fun ⟨_, _, _, _, hfinite, _⟩ => by cases hfinite
          rw [extremeAngles_eq_none fun i => by rw [iterate_infinity]; exact hle]
          exact Bool.false_ne_true
      | finite f hf =>
          obtain rfl := value_of_round hfirst.symm
          by_cases hendless : roundFinite (90 * firstTurn s) < -2 ^ 60 ∨
              ∀ l hl, extremeLimit arc = .finite l hl → 2 ^ 60 ≤ l
          · rw [extremeAngles_endless hf hle hendless]
            refine iff_of_false Bool.false_ne_true ?_
            rintro ⟨first, _, l, hl, hsame, hlimit, hlow, hhigh, -⟩
            obtain rfl := Number.finite.inj hsame
            rcases hendless with hendless | hendless
            · exact absurd hendless (not_lt.2 hlow)
            · exact absurd hhigh (not_lt.2 (hendless l hl hlimit))
          · push Not at hendless
            obtain ⟨hlow, l, hl, hlimit, hhigh⟩ := hendless
            obtain ⟨w, hw, rfl⟩ := exists_of_extremeLimit hstart hlimit
            rw [hlimit] at hle ⊢
            have hbelow : roundFinite (90 * firstTurn s) < 2 ^ 60 :=
              lt_of_le_of_lt (of_decide_eq_true hle) hhigh
            have hiff := lt_iterate_five_iff rfl hw hlow hbelow hhigh
            constructor
            · intro hsome
              obtain ⟨i, hi, hstop⟩ := (extremeAngles_isSome_iff 5 _ _).1 hsome
              obtain ⟨hrep, heq⟩ := iterate_finite hf hbelow.le i
              rw [heq] at hstop
              have hpast := of_decide_eq_false hstop
              refine ⟨_, hf, _, hl, rfl, rfl, hlow, hhigh, hiff.1 ?_⟩
              exact (not_le.1 hpast).trans_le (iterate_carry_mono hf.2 hi)
            · rintro ⟨first, _, limit, _, hsame, hsame', -, -, hwithin⟩
              obtain rfl := Number.finite.inj hsame
              obtain rfl := Number.finite.inj hsame'
              refine (extremeAngles_isSome_iff 5 _ _).2 ⟨5, le_rfl, ?_⟩
              obtain ⟨hrep, heq⟩ := iterate_finite hf hbelow.le 5
              rw [heq]
              exact decide_eq_false (not_le.2 (hiff.2 hwithin))

/-! ## §5  An endless loop -/

def angleText (text : String) : Option Number :=
  if text = "1152921504606846976" then some (Number.ofInt (2 ^ 60))
  else if text = "1152921504606847232" then some (Number.ofInt (2 ^ 60 + 256))
  else if text = "1" then some (Number.ofInt 1)
  else none

/-- A sweep of 256 degrees from a distant start. -/
def distantPairs : List (ℤ × String) :=
  [(10, "1"), (20, "1"), (40, "1"), (50, "1152921504606846976"), (51, "1152921504606847232")]

/-- The loop is entered, and its limit is beyond the steps. -/
def isEndless (arc : Arc Number) : Bool :=
  isFinite (firstExtremeAngle arc) && le (firstExtremeAngle arc) (extremeLimit arc) &&
    le (Number.ofInt (2 ^ 60)) (extremeLimit arc)

theorem exists_endless :
    ∃ arc, parseArc angleText distantPairs = .ok arc ∧ isEndless arc = true := by
  have h : (parseArc angleText distantPairs).toOption.any isEndless = true := by decide +kernel
  cases hparse : parseArc angleText distantPairs with
  | error message =>
      rw [hparse] at h
      cases h
  | ok arc =>
      rw [hparse] at h
      exact ⟨arc, rfl, h⟩

theorem arcAngles_isSome_iff_distant :
    ∃ arc, parseArc angleText distantPairs = .ok arc ∧
      ((arcAngles 6 arc).isSome = true ↔ Quick arc) := by
  obtain ⟨arc, hparse, -⟩ := exists_endless
  exact ⟨arc, hparse, arcAngles_isSome_iff hparse⟩

/-- **The loop over a distant arc does not end**, however long it runs. -/
theorem arcAngles_distant_endless :
    ∃ arc, parseArc angleText distantPairs = .ok arc ∧ ∀ fuel, arcAngles fuel arc = none := by
  obtain ⟨arc, hparse, h⟩ := exists_endless
  refine ⟨arc, hparse, fun fuel => ?_⟩
  unfold isEndless at h
  rw [Bool.and_eq_true, Bool.and_eq_true] at h
  obtain ⟨⟨hfinite, hle⟩, hlarge⟩ := h
  unfold arcAngles
  generalize firstExtremeAngle arc = first at hfinite hle
  cases first with
  | nan => cases hfinite
  | infinity negative => cases hfinite
  | finite f hf =>
      rw [extremeAngles_endless hf hle (.inr fun l hl hlimit => ?_) fuel, Option.map_none]
      rw [hlimit, show Number.ofInt (2 ^ 60) = _ from ofInt_two_pow_sixty] at hlarge
      exact of_decide_eq_true hlarge

end PolygonNesting.Dxf
