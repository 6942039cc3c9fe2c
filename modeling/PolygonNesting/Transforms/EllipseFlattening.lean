import PolygonNesting.Caches.TransformGeometry
import PolygonNesting.Search.StrictScoring

/-!
# Flattening an ellipse

An elliptic arc is cut into intervals of at most a quarter turn, and each of
them is halved until its chord stays within the sag tolerance.  Angles and
points are numbers of `F`; the number of intervals and the index of the loop
over them are binary64 numbers, as the loop compares and counts in `f64`.  The
loop takes fuel: it need not end.
-/

namespace PolygonNesting

open Binary64

/-- An accepted source of the wire, with the id that is only checked. -/
structure EllipseSource (F : Type) where
  sourceId : String
  cx : F
  cy : F
  majorAxisX : F
  majorAxisY : F
  axisRatio : F
  startAngle : F
  endAngle : F

structure DxfEllipseSource (F : Type) where
  cx : F
  cy : F
  majorAxisX : F
  majorAxisY : F
  axisRatio : F
  startAngle : F
  endAngle : F

variable {F : Type} [LinearOrder F] [Zero F] [One F] [Add F] [Sub F] [Neg F]
  [Mul F] [Div F] [JsMath F] [JsTrig F]

/-- What `EllipseSource::validate` accepts. -/
def EllipseSource.valid (source : EllipseSource F) : Bool :=
  !source.sourceId.isEmpty &&
    [source.cx, source.cy, source.majorAxisX, source.majorAxisY, source.startAngle,
      source.endAngle].all JsNumber.isFinite &&
    (JsNumber.isFinite source.axisRatio && decide (0 < source.axisRatio)) &&
    !(decide (source.majorAxisX = 0) && decide (source.majorAxisY = 0))

namespace Ellipse

/-! ## §1  One interval -/

def fullTurnRadians : F := JsTrig.pi * JsNumber.ofNat 2
def initialMaxSweepRadians : F := JsTrig.pi / JsNumber.ofNat 2
def maxRecursionDepth : ℕ := 20
def maxSamplePoints : ℕ := 1000000

def ellipseEndParameter (startAngle endAngle : F) : F :=
  if endAngle ≤ startAngle then endAngle + fullTurnRadians else endAngle

def ellipsePoint (ellipse : DxfEllipseSource F) (parameter : F) : IrregularPoint F :=
  let minorAxisX := -ellipse.majorAxisY * ellipse.axisRatio
  let minorAxisY := ellipse.majorAxisX * ellipse.axisRatio
  ⟨ellipse.cx + ellipse.majorAxisX * JsTrig.cos parameter + minorAxisX * JsTrig.sin parameter,
    ellipse.cy + ellipse.majorAxisY * JsTrig.cos parameter + minorAxisY * JsTrig.sin parameter⟩

def distanceToChord (point startPoint endPoint : IrregularPoint F) : F :=
  let deltaX := endPoint.x - startPoint.x
  let deltaY := endPoint.y - startPoint.y
  let lengthSquared := deltaX * deltaX + deltaY * deltaY
  if lengthSquared ≤ 0 then JsMath.hypot (point.x - startPoint.x) (point.y - startPoint.y)
  else
    let projection := max 0 (min 1
      (((point.x - startPoint.x) * deltaX + (point.y - startPoint.y) * deltaY) / lengthSquared))
    let closestX := startPoint.x + projection * deltaX
    let closestY := startPoint.y + projection * deltaY
    JsMath.hypot (point.x - closestX) (point.y - closestY)

def majorAxisLength (ellipse : DxfEllipseSource F) : F :=
  JsMath.hypot ellipse.majorAxisX ellipse.majorAxisY

def needsSubdivision (ellipse : DxfEllipseSource F) (intervalStart intervalEnd : F)
    (startPoint endPoint : IrregularPoint F) (sagToleranceMm : F) : Bool :=
  let intervalLength := intervalEnd - intervalStart
  let maximumAxisLength :=
    max (majorAxisLength ellipse) (majorAxisLength ellipse * ellipse.axisRatio)
  let conservativeDeviationBound :=
    maximumAxisLength * intervalLength * intervalLength / JsNumber.ofNat 8
  if conservativeDeviationBound ≤ sagToleranceMm then false
  else
    let quarter := half * half
    let quarterPoint := ellipsePoint ellipse (intervalStart + intervalLength * quarter)
    let middlePoint := ellipsePoint ellipse (intervalStart + intervalLength * half)
    let threeQuarterPoint :=
      ellipsePoint ellipse (intervalStart + intervalLength * (JsNumber.ofNat 3 * quarter))
    let maximumDeviation := max (max (distanceToChord quarterPoint startPoint endPoint)
      (distanceToChord middlePoint startPoint endPoint))
      (distanceToChord threeQuarterPoint startPoint endPoint)
    decide (sagToleranceMm < maximumDeviation)

def intervalMiddle (intervalStart intervalEnd : F) : F :=
  (intervalStart + intervalEnd) / JsNumber.ofNat 2

/-- `output` with the end points of the accepted parts of the interval. -/
def appendFlattenedInterval (ellipse : DxfEllipseSource F) (sagToleranceMm : F)
    (output : List (IrregularPoint F)) (intervalStart intervalEnd : F)
    (startPoint endPoint : IrregularPoint F) (recursionDepth : ℕ) :
    List (IrregularPoint F) :=
  if h : recursionDepth ≥ maxRecursionDepth ∨ output.length ≥ maxSamplePoints ∨
      needsSubdivision ellipse intervalStart intervalEnd startPoint endPoint
        sagToleranceMm = false then
    output ++ [endPoint]
  else
    let middle := intervalMiddle intervalStart intervalEnd
    let middlePoint := ellipsePoint ellipse middle
    let output := appendFlattenedInterval ellipse sagToleranceMm output intervalStart middle
      startPoint middlePoint (recursionDepth + 1)
    appendFlattenedInterval ellipse sagToleranceMm output middle intervalEnd middlePoint
      endPoint (recursionDepth + 1)
termination_by maxRecursionDepth - recursionDepth
decreasing_by
  all_goals
    rw [not_or] at h
    omega

/-! ## §2  The loop over the intervals -/

/-- `Math.ceil` of a finite value. -/
def ceilCount (value : F) : Number :=
  match JsNumber.floor (-value) with
  | none => .infinity false
  | some n => .ofInt (-n)

/-- A whole number as a number of `F`. -/
def countValue : Number → F
  | .finite value _ => JsMath.ofInt ⌊value⌋
  | _ => 0

/-- What the loop of `sample_points` does not change. -/
structure SamplingRun (F : Type) where
  ellipse : DxfEllipseSource F
  sagToleranceMm : F
  sweep : F
  initialSegmentCount : Number
  startPoint : IrregularPoint F
  isFullEllipse : Bool

/-- The parameter at which interval `segmentIndex` begins. -/
def SamplingRun.parameter (run : SamplingRun F) (segmentIndex : Number) : F :=
  run.ellipse.startAngle +
    run.sweep * countValue segmentIndex / countValue run.initialSegmentCount

def SamplingRun.intervalStartPoint (run : SamplingRun F) (segmentIndex : Number) :
    IrregularPoint F :=
  if segmentIndex.eq (.ofInt 0) then run.startPoint
  else ellipsePoint run.ellipse (run.parameter segmentIndex)

def SamplingRun.intervalEndPoint (run : SamplingRun F) (segmentIndex : Number) :
    IrregularPoint F :=
  if segmentIndex.eq (run.initialSegmentCount.sub (.ofInt 1)) && run.isFullEllipse then
    run.startPoint
  else ellipsePoint run.ellipse (run.parameter (segmentIndex.add (.ofInt 1)))

def SamplingRun.loop (run : SamplingRun F) :
    ℕ → Number → List (IrregularPoint F) → Option (List (IrregularPoint F))
  | 0, _, _ => none
  | fuel + 1, segmentIndex, points =>
      if segmentIndex.lt run.initialSegmentCount then
        run.loop fuel (segmentIndex.add (.ofInt 1))
          (appendFlattenedInterval run.ellipse run.sagToleranceMm points
            (run.parameter segmentIndex) (run.parameter (segmentIndex.add (.ofInt 1)))
            (run.intervalStartPoint segmentIndex) (run.intervalEndPoint segmentIndex) 0)
      else some points

def sweepOf (ellipse : DxfEllipseSource F) : F :=
  ellipseEndParameter ellipse.startAngle ellipse.endAngle - ellipse.startAngle

/-- The sources that yield no points. -/
def noArc (ellipse : DxfEllipseSource F) : Bool :=
  !JsNumber.isFinite (sweepOf ellipse) || decide (sweepOf ellipse ≤ 0) ||
    !JsNumber.isFinite (majorAxisLength ellipse) || decide (majorAxisLength ellipse ≤ 0)

def samplingRun (ellipse : DxfEllipseSource F) (sagToleranceMm : F) : SamplingRun F where
  ellipse := ellipse
  sagToleranceMm := sagToleranceMm
  sweep := sweepOf ellipse
  initialSegmentCount :=
    jsMax (.ofInt 1) (ceilCount (sweepOf ellipse / initialMaxSweepRadians))
  startPoint := ellipsePoint ellipse ellipse.startAngle
  isFullEllipse :=
    decide (absolute (sweepOf ellipse - fullTurnRadians) ≤ 1 / JsNumber.ofNat 1000000000)

def samplePoints (fuel : ℕ) (ellipse : DxfEllipseSource F) (sagToleranceMm : F) :
    Option (List (IrregularPoint F)) :=
  if noArc ellipse then some []
  else
    let run := samplingRun ellipse sagToleranceMm
    run.loop fuel (.ofInt 0) [run.startPoint]

end Ellipse

end PolygonNesting
