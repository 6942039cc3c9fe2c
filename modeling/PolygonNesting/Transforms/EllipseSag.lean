import Mathlib.Analysis.Real.Pi.Bounds
import PolygonNesting.Lib.ArcChord
import PolygonNesting.Transforms.EllipseFlatteningLaw

/-!
# The sag of a flattened ellipse

An accepted interval keeps the tolerance across its chord: the sampled middle
is where the arc is farthest off the line.  Along the line the arc may run past
an end of the chord between two samples, and nothing looks there.
-/

namespace PolygonNesting.Ellipse

open Binary64 Bisection ArcChord

variable {ellipse : DxfEllipseSource ℝ} {sagToleranceMm : ℝ}

/-! ## §1  Accepted intervals -/

def coordinates (point : IrregularPoint ℝ) : ℝ × ℝ := (point.x, point.y)

structure ArcInterval where
  intervalStart : ℝ
  intervalEnd : ℝ
  startPoint : IrregularPoint ℝ
  endPoint : IrregularPoint ℝ

noncomputable def leftHalf (ellipse : DxfEllipseSource ℝ) (interval : ArcInterval) :
    ArcInterval where
  intervalStart := interval.intervalStart
  intervalEnd := intervalMiddle interval.intervalStart interval.intervalEnd
  startPoint := interval.startPoint
  endPoint :=
    ellipsePoint ellipse (intervalMiddle interval.intervalStart interval.intervalEnd)

noncomputable def rightHalf (ellipse : DxfEllipseSource ℝ) (interval : ArcInterval) :
    ArcInterval where
  intervalStart := intervalMiddle interval.intervalStart interval.intervalEnd
  intervalEnd := interval.intervalEnd
  startPoint :=
    ellipsePoint ellipse (intervalMiddle interval.intervalStart interval.intervalEnd)
  endPoint := interval.endPoint

/-- The intervals that an interval is halved into by the sag tolerance alone. -/
noncomputable def acceptedIntervals (ellipse : DxfEllipseSource ℝ) (sagToleranceMm : ℝ) :
    ℕ → ArcInterval → List ArcInterval
  | 0, interval => [interval]
  | remaining + 1, interval =>
      if needsSubdivision ellipse interval.intervalStart interval.intervalEnd
          interval.startPoint interval.endPoint sagToleranceMm then
        acceptedIntervals ellipse sagToleranceMm remaining (leftHalf ellipse interval) ++
          acceptedIntervals ellipse sagToleranceMm remaining (rightHalf ellipse interval)
      else [interval]

noncomputable def segmentInterval (run : SamplingRun ℝ) (k : ℕ) : ArcInterval where
  intervalStart := run.parameter (.ofInt k)
  intervalEnd := run.parameter (.ofInt (k + 1))
  startPoint := run.intervalStartPoint (.ofInt k)
  endPoint := run.intervalEndPoint (.ofInt k)

noncomputable def intervals (ellipse : DxfEllipseSource ℝ) (sagToleranceMm : ℝ) :
    List ArcInterval :=
  (List.range (quarterTurns ellipse)).flatMap fun k =>
    acceptedIntervals ellipse sagToleranceMm maxRecursionDepth
      (segmentInterval (samplingRun ellipse sagToleranceMm) k)

/-- A proper source with an arc and a tolerance, for which neither cap is hit. -/
structure Uncapped (ellipse : DxfEllipseSource ℝ) (sagToleranceMm : ℝ) : Prop where
  axis : ellipse.majorAxisX ≠ 0 ∨ ellipse.majorAxisY ≠ 0
  ratio : 0 < ellipse.axisRatio
  sweep : 0 < sweepOf ellipse
  tolerance : 0 < sagToleranceMm
  depth : ∀ shape ∈ shapes ellipse sagToleranceMm, shape.depth < maxRecursionDepth
  samples : 1 + leaves (shapes ellipse sagToleranceMm) ≤ maxSamplePoints

noncomputable def conservativeDeviationBound (ellipse : DxfEllipseSource ℝ)
    (interval : ArcInterval) : ℝ :=
  max (majorAxisLength ellipse) (majorAxisLength ellipse * ellipse.axisRatio) *
    (interval.intervalEnd - interval.intervalStart) *
    (interval.intervalEnd - interval.intervalStart) / 8

theorem length_acceptedIntervals : ∀ (remaining : ℕ) (interval : ArcInterval),
    (acceptedIntervals ellipse sagToleranceMm remaining interval).length =
      (intervalShape ellipse sagToleranceMm remaining interval.intervalStart
        interval.intervalEnd interval.startPoint interval.endPoint).leaves
  | 0, _ => rfl
  | remaining + 1, interval => by
      unfold acceptedIntervals intervalShape
      split
      · rw [List.length_append, length_acceptedIntervals, length_acceptedIntervals]
        rfl
      · rfl

theorem append_eq : ∀ (remaining recursionDepth : ℕ),
    recursionDepth + remaining = maxRecursionDepth →
    ∀ (output : List (IrregularPoint ℝ)) (interval : ArcInterval),
      output.length +
        (acceptedIntervals ellipse sagToleranceMm remaining interval).length ≤
          maxSamplePoints →
      appendFlattenedInterval ellipse sagToleranceMm output interval.intervalStart
        interval.intervalEnd interval.startPoint interval.endPoint recursionDepth =
      output ++ (acceptedIntervals ellipse sagToleranceMm remaining interval).map
        ArcInterval.endPoint
  | 0, recursionDepth, hdepth, output, interval, _ => by
      unfold appendFlattenedInterval
      rw [dif_pos (.inl (by omega))]
      rfl
  | remaining + 1, recursionDepth, hdepth, output, interval, hroom => by
      have ih := append_eq remaining (recursionDepth + 1) (by omega)
      unfold appendFlattenedInterval
      unfold acceptedIntervals at hroom ⊢
      cases hneeds : needsSubdivision ellipse interval.intervalStart interval.intervalEnd
          interval.startPoint interval.endPoint sagToleranceMm with
      | false =>
          rw [dif_pos (.inr (.inr rfl)), if_neg Bool.false_ne_true]
          rfl
      | true =>
          rw [hneeds, if_pos rfl] at hroom
          rw [if_pos rfl]
          dsimp only at hroom ⊢
          rw [List.length_append] at hroom
          by_cases hdeep : recursionDepth ≥ maxRecursionDepth
          · omega
          by_cases hfull : maxSamplePoints ≤ output.length
          · have hpos : ∀ interval, 0 < (acceptedIntervals ellipse sagToleranceMm remaining
                interval).length := fun interval => by
              rw [length_acceptedIntervals]
              exact Shape.leaves_pos _
            have := hpos (leftHalf ellipse interval)
            omega
          rw [dif_neg (by simp only [not_or]; exact ⟨hdeep, hfull, by simp⟩)]
          rw [List.map_append, ← List.append_assoc]
          have hleft := ih output (leftHalf ellipse interval) (by omega)
          unfold leftHalf at hleft
          dsimp only at hleft
          rw [hleft]
          refine ih _ (rightHalf ellipse interval) ?_
          rw [List.length_append, List.length_map]
          unfold leftHalf at hroom
          omega

/-- Intervals one after the other, from one point to another. -/
inductive Linked : IrregularPoint ℝ → IrregularPoint ℝ → List ArcInterval → Prop
  | nil (point : IrregularPoint ℝ) : Linked point point []
  | cons (interval : ArcInterval) (last : IrregularPoint ℝ) (rest : List ArcInterval)
      (hrest : Linked interval.endPoint last rest) :
      Linked interval.startPoint last (interval :: rest)

theorem Linked.append {first middle last : IrregularPoint ℝ} {left right : List ArcInterval}
    (hleft : Linked first middle left) (hright : Linked middle last right) :
    Linked first last (left ++ right) := by
  induction hleft with
  | nil => exact hright
  | cons interval middle rest hrest ih => exact .cons interval last _ (ih hright)

theorem Uncapped.harc (h : Uncapped ellipse sagToleranceMm) : noArc ellipse = false := by
  have hfinite : ∀ x : ℝ, JsNumber.isFinite x = true := fun _ => rfl
  have haxis : 0 < majorAxisLength ellipse := by
    refine Real.sqrt_pos.mpr ?_
    rcases h.axis with hx | hy
    · positivity
    · positivity
  unfold noArc
  rw [hfinite, hfinite, decide_eq_false (not_le.mpr h.sweep),
    decide_eq_false (not_le.mpr haxis)]
  rfl

theorem length_intervals (ellipse : DxfEllipseSource ℝ) (sagToleranceMm : ℝ) :
    (intervals ellipse sagToleranceMm).length = leaves (shapes ellipse sagToleranceMm) := by
  unfold intervals leaves shapes
  rw [List.length_flatMap, List.map_map]
  refine congrArg List.sum (List.map_congr_left fun k _ => ?_)
  exact length_acceptedIntervals maxRecursionDepth _

theorem Uncapped.quarterTurns_le (h : Uncapped ellipse sagToleranceMm) :
    quarterTurns ellipse ≤ 2 ^ 53 := by
  have hmax : maxSamplePoints = 1000000 := rfl
  have hlength := length_le_leaves (shapes ellipse sagToleranceMm)
  have hsamples := h.samples
  rw [length_shapes] at hlength
  omega

theorem foldl_segment_eq (run : SamplingRun ℝ) : ∀ (indices : List ℕ)
    (output : List (IrregularPoint ℝ)),
    output.length + (indices.flatMap fun k => acceptedIntervals run.ellipse run.sagToleranceMm
      maxRecursionDepth (segmentInterval run k)).length ≤ maxSamplePoints →
    indices.foldl (segment run) output =
      output ++ (indices.flatMap fun k => acceptedIntervals run.ellipse run.sagToleranceMm
        maxRecursionDepth (segmentInterval run k)).map ArcInterval.endPoint
  | [], output, _ => (List.append_nil output).symm
  | k :: indices, output, hroom => by
      rw [List.flatMap_cons, List.length_append] at hroom
      have hsegment : segment run output k = output ++
          (acceptedIntervals run.ellipse run.sagToleranceMm maxRecursionDepth
            (segmentInterval run k)).map ArcInterval.endPoint :=
        append_eq maxRecursionDepth 0 (Nat.zero_add _) output (segmentInterval run k) (by omega)
      rw [List.foldl_cons, hsegment, foldl_segment_eq run indices _ (by
        rw [List.length_append, List.length_map]
        omega), List.flatMap_cons, List.map_append, List.append_assoc]

/-- **The polyline** has the end points of the accepted intervals. -/
theorem Uncapped.samplePoints (h : Uncapped ellipse sagToleranceMm) :
    (∃ fuel, samplePoints fuel ellipse sagToleranceMm =
      some (ellipsePoint ellipse ellipse.startAngle ::
        (intervals ellipse sagToleranceMm).map ArcInterval.endPoint)) ∧
    ∀ {fuel : ℕ} {points : List (IrregularPoint ℝ)},
      samplePoints fuel ellipse sagToleranceMm = some points →
        points = ellipsePoint ellipse ellipse.startAngle ::
          (intervals ellipse sagToleranceMm).map ArcInterval.endPoint := by
  have hcount : (samplingRun ellipse sagToleranceMm).initialSegmentCount = _ :=
    initialSegmentCount_eq h.harc
  obtain ⟨⟨fuel, hrun⟩, hunique⟩ := loop_eq hcount h.quarterTurns_le
    (j := quarterTurns ellipse) (k := 0) [(samplingRun ellipse sagToleranceMm).startPoint]
    (Nat.zero_add _)
  have hlength := length_intervals ellipse sagToleranceMm
  have hfold : (List.range' 0 (quarterTurns ellipse)).foldl
      (segment (samplingRun ellipse sagToleranceMm))
      [(samplingRun ellipse sagToleranceMm).startPoint] =
      ellipsePoint ellipse ellipse.startAngle ::
        (intervals ellipse sagToleranceMm).map ArcInterval.endPoint := by
    rw [← List.range_eq_range']
    refine foldl_segment_eq (samplingRun ellipse sagToleranceMm) _ _ ?_
    have hsamples := h.samples
    rw [← hlength] at hsamples
    exact hsamples
  rw [hfold] at hrun
  refine ⟨⟨fuel, (samplePoints_eq h.harc fuel).trans hrun⟩, fun {fuel points} hpoints => ?_⟩
  rw [samplePoints_eq h.harc] at hpoints
  exact (hunique hpoints).trans hfold

def centre (ellipse : DxfEllipseSource ℝ) : ℝ × ℝ := (ellipse.cx, ellipse.cy)

def majorAxis (ellipse : DxfEllipseSource ℝ) : ℝ × ℝ := (ellipse.majorAxisX, ellipse.majorAxisY)

def minorAxis (ellipse : DxfEllipseSource ℝ) : ℝ × ℝ :=
  (-ellipse.majorAxisY * ellipse.axisRatio, ellipse.majorAxisX * ellipse.axisRatio)

theorem coordinates_ellipsePoint (ellipse : DxfEllipseSource ℝ) (parameter : ℝ) :
    coordinates (ellipsePoint ellipse parameter) =
      arc (centre ellipse) (majorAxis ellipse) (minorAxis ellipse) parameter := rfl

end PolygonNesting.Ellipse
