import PolygonNesting.Lib.Bisection
import PolygonNesting.Lib.NumberCounts
import PolygonNesting.Transforms.EllipseFlattening
import PolygonNesting.Transforms.RealArithmetic

/-!
# How many points an ellipse is flattened to

In exact real arithmetic, with the loop index a binary64 number.  The cap on
the samples is seen inside an interval only: every interval that is still open
when it is reached yields one point more, and nothing bounds the number of
intervals of a long sweep.
-/

namespace PolygonNesting.Ellipse

open Binary64 Bisection

variable {ellipse : DxfEllipseSource ℝ} {sagToleranceMm : ℝ}

/-! ## §1  What sampling is to do -/

/-- How an interval is halved by the sag tolerance alone. -/
noncomputable def intervalShape (ellipse : DxfEllipseSource ℝ) (sagToleranceMm : ℝ) :
    ℕ → ℝ → ℝ → IrregularPoint ℝ → IrregularPoint ℝ → Shape
  | 0, _, _, _, _ => .accepted
  | remaining + 1, intervalStart, intervalEnd, startPoint, endPoint =>
      if needsSubdivision ellipse intervalStart intervalEnd startPoint endPoint
          sagToleranceMm then
        let middle := intervalMiddle intervalStart intervalEnd
        .halved
          (intervalShape ellipse sagToleranceMm remaining intervalStart middle startPoint
            (ellipsePoint ellipse middle))
          (intervalShape ellipse sagToleranceMm remaining middle intervalEnd
            (ellipsePoint ellipse middle) endPoint)
      else .accepted

/-- The number of intervals of at most a quarter turn. -/
noncomputable def quarterTurns (ellipse : DxfEllipseSource ℝ) : ℕ :=
  ⌈sweepOf ellipse / initialMaxSweepRadians⌉₊

noncomputable def segmentShape (run : SamplingRun ℝ) (k : ℕ) : Shape :=
  intervalShape run.ellipse run.sagToleranceMm maxRecursionDepth (run.parameter (.ofInt k))
    (run.parameter (.ofInt (k + 1))) (run.intervalStartPoint (.ofInt k))
    (run.intervalEndPoint (.ofInt k))

noncomputable def shapes (ellipse : DxfEllipseSource ℝ) (sagToleranceMm : ℝ) : List Shape :=
  (List.range (quarterTurns ellipse)).map (segmentShape (samplingRun ellipse sagToleranceMm))

/-- Parameters after `first`, each after the one before and none after `last`. -/
def Increasing (first last : ℝ) (parameters : List ℝ) : Prop :=
  (first :: parameters).Pairwise (· < ·) ∧ ∀ x ∈ parameters, x ≤ last

theorem Increasing.append {first middle last : ℝ} {left right : List ℝ}
    (hleft : Increasing first middle left) (hright : Increasing middle last right)
    (hfirst : first ≤ middle) (hlast : middle ≤ last) :
    Increasing first last (left ++ right) := by
  obtain ⟨hl, hlle⟩ := hleft
  obtain ⟨hr, hrle⟩ := hright
  rw [List.pairwise_cons] at hl hr
  refine ⟨?_, fun x hx => ?_⟩
  · rw [List.pairwise_cons, List.pairwise_append]
    refine ⟨fun x hx => ?_, hl.2, hr.2, fun x hx y hy => (hlle x hx).trans_lt (hr.1 y hy)⟩
    rcases List.mem_append.mp hx with hx | hx
    · exact hl.1 x hx
    · exact hfirst.trans_lt (hr.1 x hx)
  · rcases List.mem_append.mp hx with hx | hx
    · exact (hlle x hx).trans hlast
    · exact hrle x hx

/-- The index goes up by one, as long as it has 53 bits. -/
theorem ofInt_add_one {k : ℕ} (h : k + 1 ≤ 2 ^ 53) :
    (Number.ofInt k).add (.ofInt 1) = .ofInt (k + 1) := by
  have hone : Number.ofInt 1 = .finite (1 : ℕ) _ := Number.ofInt_natCast (n := 1) (by norm_num)
  rw [Number.ofInt_natCast (by omega), hone]
  unfold Number.add Number.ofInt
  push_cast
  rfl

/-- The index is compared exactly with every number of intervals. -/
theorem ofInt_lt_ofInt {k n : ℕ} (hk : k + 1 ≤ 2 ^ 53) (h : k < n) :
    (Number.ofInt k).lt (.ofInt n) = true := by
  have hle : (Number.ofInt ((k + 1 : ℕ) : ℤ)).le (.ofInt n) = true := by
    rw [Number.ofInt_natCast hk]
    exact Number.le_round _ (by exact_mod_cast h)
  rw [Number.ofInt_natCast hk] at hle
  rw [Number.ofInt_natCast (by omega)]
  cases hn : Number.ofInt (n : ℤ) with
  | nan => rw [hn] at hle; cases hle
  | infinity negative => rw [hn] at hle; exact hle
  | finite value _ =>
      rw [hn] at hle
      have hle := of_decide_eq_true hle
      push_cast at hle
      exact decide_eq_true (by linarith)

theorem sweep_pos (h : noArc ellipse = false) : 0 < sweepOf ellipse := by
  unfold noArc at h
  simp only [Bool.or_eq_false_iff, decide_eq_false_iff_not, not_le] at h
  exact h.1.1.2

theorem initialMaxSweepRadians_eq : (initialMaxSweepRadians : ℝ) = Real.pi / 2 := by
  have htwo : (JsNumber.ofNat 2 : ℝ) = 2 := Nat.cast_ofNat
  unfold initialMaxSweepRadians
  rw [htwo]
  rfl

theorem initialMaxSweepRadians_pos : (0 : ℝ) < initialMaxSweepRadians := by
  rw [initialMaxSweepRadians_eq]
  exact half_pos Real.pi_pos

theorem quarterTurns_pos (h : noArc ellipse = false) : 0 < quarterTurns ellipse :=
  Nat.ceil_pos.mpr (div_pos (sweep_pos h) initialMaxSweepRadians_pos)

theorem initialSegmentCount_eq (h : noArc ellipse = false) :
    (samplingRun ellipse sagToleranceMm).initialSegmentCount =
      .ofInt (quarterTurns ellipse) := by
  have hceil : ceilCount (sweepOf ellipse / initialMaxSweepRadians) =
      .ofInt (quarterTurns ellipse) := by
    show Number.ofInt (-⌊-(sweepOf ellipse / initialMaxSweepRadians)⌋) = _
    have hpos := (div_pos (sweep_pos h) initialMaxSweepRadians_pos).le
    rw [Int.floor_neg, neg_neg, quarterTurns, Int.natCast_ceil_eq_ceil hpos]
  have hpos := quarterTurns_pos h
  unfold samplingRun jsMax
  dsimp only
  rw [hceil, show (Number.ofInt 1).isNan = false from isNan_round _,
    show (Number.ofInt (quarterTurns ellipse : ℤ)).isNan = false from isNan_round _]
  rcases Nat.lt_or_eq_of_le hpos with hlt | heq
  · have := ofInt_lt_ofInt (k := 1) (n := quarterTurns ellipse) (by norm_num) hlt
    rw [Nat.cast_one] at this
    simp [this]
  · have := Number.lt_ofInt (a := 1) (b := 1) (by norm_num) (by norm_num)
    rw [← heq, Nat.cast_one]
    simp [this]

/-- What one turn of the loop does. -/
noncomputable def segment (run : SamplingRun ℝ) (points : List (IrregularPoint ℝ)) (k : ℕ) :
    List (IrregularPoint ℝ) :=
  appendFlattenedInterval run.ellipse run.sagToleranceMm points (run.parameter (.ofInt k))
    (run.parameter (.ofInt (k + 1))) (run.intervalStartPoint (.ofInt k))
    (run.intervalEndPoint (.ofInt k)) 0

theorem loop_succ {run : SamplingRun ℝ} {n : ℕ} (hcount : run.initialSegmentCount = .ofInt n)
    {k : ℕ} (hk : k + 1 ≤ 2 ^ 53) (hlt : k < n) (fuel : ℕ)
    (points : List (IrregularPoint ℝ)) :
    run.loop (fuel + 1) (.ofInt k) points =
      run.loop fuel (.ofInt ((k + 1 : ℕ) : ℤ)) (segment run points k) := by
  rw [SamplingRun.loop, hcount, ofInt_lt_ofInt hk hlt, if_pos rfl, ofInt_add_one hk]
  push_cast
  rfl

/-- **The loop folds over the intervals**, where their number has 53 bits. -/
theorem loop_eq {run : SamplingRun ℝ} {n : ℕ} (hcount : run.initialSegmentCount = .ofInt n)
    (hbits : n ≤ 2 ^ 53) : ∀ {j k : ℕ} (points : List (IrregularPoint ℝ)), k + j = n →
    (∃ fuel, run.loop fuel (.ofInt k) points =
      some ((List.range' k j).foldl (segment run) points)) ∧
    ∀ {fuel : ℕ} {final : List (IrregularPoint ℝ)},
      run.loop fuel (.ofInt k) points = some final →
        final = (List.range' k j).foldl (segment run) points
  | 0, k, points, hk => by
      have hstop : (Number.ofInt k).lt run.initialSegmentCount = false := by
        rw [hcount, ← hk, Nat.add_zero, Number.ofInt_natCast (by omega)]
        exact decide_eq_false (lt_irrefl _)
      refine ⟨⟨1, ?_⟩, fun {fuel final} h => ?_⟩
      · rw [SamplingRun.loop, hstop]
        rfl
      · cases fuel with
        | zero => cases h
        | succ fuel =>
            rw [SamplingRun.loop, hstop] at h
            exact (Option.some.inj h).symm
  | j + 1, k, points, hk => by
      obtain ⟨⟨fuel, hfuel⟩, hunique⟩ :=
        loop_eq hcount hbits (j := j) (k := k + 1) (segment run points k) (by omega)
      have hstep := loop_succ hcount (k := k) (by omega) (by omega)
      rw [List.range'_succ, List.foldl_cons]
      refine ⟨⟨fuel + 1, (hstep fuel points).trans hfuel⟩, fun {fuel final} h => ?_⟩
      cases fuel with
      | zero => cases h
      | succ fuel => exact hunique ((hstep fuel points).symm.trans h)

theorem length_shapes : (shapes ellipse sagToleranceMm).length = quarterTurns ellipse := by
  unfold shapes
  rw [List.length_map, List.length_range]

theorem samplePoints_eq (harc : noArc ellipse = false) (fuel : ℕ) :
    samplePoints fuel ellipse sagToleranceMm =
      (samplingRun ellipse sagToleranceMm).loop fuel (.ofInt (0 : ℕ))
        [(samplingRun ellipse sagToleranceMm).startPoint] := by
  unfold samplePoints
  rw [harc]
  rfl

end PolygonNesting.Ellipse
