import PolygonNesting.Checkpoints.CanonicalJson
import PolygonNesting.Lib.ParetoPeeling

/-!
# Ranking completed layouts

A completed layout is measured once and compared by its metrics from then on: by
compactness, by its voids and by its contacts.  One layout dominates another by the
first two.  The ranking peels the undominated layouts off, front after front, and puts
each front in order by the three objectives in turn.  The shared archive takes its winner
from the first front by the certificate of the endpoints.

Areas are decimal integers, counts are naturals; metrics in millimetres and ratios are
numbers of `F`.  Metrics may lack their exact part, and two layouts are compared exactly
only where both have it.
-/

namespace PolygonNesting

/-! ## §1  Metrics -/

structure IntrinsicStrictCompletedMetricsExact where
  envelopeMaximumSideGrid : ℤ
  envelopeAreaGrid2 : ℤ
  envelopeSpanGrid : ℤ
  totalEnclosedCavityDoubledAreaGrid2 : ℤ
  largestOccupiedHullGapDoubledAreaGrid2 : ℤ
  occupiedHullDoubledAreaGrid2 : ℤ
  occupiedHullWasteDoubledAreaGrid2 : ℤ
  largestPositiveContactComponentSize : ℕ
  placedPieceCount : ℕ
  occupiedOutsideLargestContactComponentDoubledAreaGrid2 : ℤ
  deriving DecidableEq

structure IntrinsicStrictCompletedMetrics (F : Type) where
  envelopeMaximumSideMm : F
  envelopeAreaMm2 : F
  envelopeSpanMm : F
  enclosedCavityCount : ℕ
  totalEnclosedCavityAreaMm2 : F
  largestOccupiedHullGapRatio : F
  isolatedPieceCount : ℕ
  positiveContactComponentCount : ℕ
  largestPositiveContactComponentSize : ℕ
  largestPositiveContactComponentRatio : F
  occupiedAreaOutsideLargestContactComponentMm2 : F
  occupiedHullWasteRatio : F
  totalStructuralContacts : ℕ
  dominantStructuralContacts : ℕ
  contactUnits : F
  sharedBoundaryLengthMm : F
  canonicalGeometryHash : String
  runtimeMs : F
  exact : Option IntrinsicStrictCompletedMetricsExact
  deriving DecidableEq

variable {F : Type} [LinearOrder F] [Zero F] [One F] [Add F] [Sub F] [Neg F]
  [Mul F] [Div F] [JsMath F]

def canonicalLinearMetric (valueMm : F) : F := round (valueMm * JsNumber.ofNat 1000)

def canonicalAreaMetric (valueMm2 : F) : F := round (valueMm2 * JsNumber.ofNat 1000000)

/-! ## §2  The certificate -/

structure ExactFraction where
  numerator : ℤ
  denominator : ℤ
  deriving DecidableEq

/-- The loop of `greatest_common_divisor`, on the magnitudes. -/
def greatestCommonDivisorLoop (left right : ℕ) : ℕ :=
  if right = 0 then left else greatestCommonDivisorLoop right (left % right)
termination_by right
decreasing_by exact Nat.mod_lt _ (Nat.pos_of_ne_zero ‹_›)

def greatestCommonDivisor (first second : ℤ) : ℕ :=
  greatestCommonDivisorLoop first.natAbs second.natAbs

def normalizedFraction (numerator denominator : ℤ) : ExactFraction :=
  if denominator ≤ 0 then ⟨0, 1⟩
  else
    let divisor := greatestCommonDivisor numerator denominator
    let divisor : ℤ := if divisor = 0 then 1 else divisor
    ⟨numerator.tdiv divisor, denominator.tdiv divisor⟩

def addFractions (first second : ExactFraction) : ExactFraction :=
  normalizedFraction
    (first.numerator * second.denominator + second.numerator * first.denominator)
    (first.denominator * second.denominator)

def cappedDeficit (numerator denominator : ℤ) : ExactFraction :=
  if numerator ≤ 0 then ⟨0, 1⟩
  else if denominator ≤ numerator then ⟨1, 1⟩
  else normalizedFraction numerator denominator

/-- One more deficit, where its floor is violated. -/
def addDeficit (violated : Bool) (numerator denominator : ℤ) (total : ExactFraction) :
    ExactFraction :=
  if violated then addFractions total (cappedDeficit numerator denominator) else total

inductive IntrinsicStrictCohesionFloor
  | maximumEnclosedCavityCount
  | maximumIsolatedPieceCount
  | minimumLargestPositiveContactComponentRatio
  | maximumLargestOccupiedHullGapRatio
  deriving DecidableEq

structure IntrinsicStrictCohesionFloors (F : Type) where
  maximumEnclosedCavityCount : ℕ
  maximumIsolatedPieceCount : ℕ
  minimumLargestPositiveContactComponentRatio : F
  maximumLargestOccupiedHullGapRatio : F

def intrinsicStrictCohesionFloors : IntrinsicStrictCohesionFloors F :=
  ⟨2, 2, JsNumber.ofNat 4 / JsNumber.ofNat 5, JsNumber.ofNat 3 / JsNumber.ofNat 20⟩

structure IntrinsicStrictCertificate (F : Type) where
  passes : Bool
  violatedFloors : List IntrinsicStrictCohesionFloor
  relativeDeficitSum : F
  exactRelativeDeficitNumerator : Option ℤ
  exactRelativeDeficitDenominator : Option ℤ
  deriving DecidableEq

/-- The largest component holds less than four fifths of the pieces. -/
def largestComponentBelowFloor (exact : IntrinsicStrictCompletedMetricsExact) : Bool :=
  decide (5 * (exact.largestPositiveContactComponentSize : ℤ) <
    4 * (exact.placedPieceCount : ℤ))

/-- The largest gap is more than three twentieths of the hull. -/
def largestHullGapAboveFloor (exact : IntrinsicStrictCompletedMetricsExact) : Bool :=
  decide (3 * exact.occupiedHullDoubledAreaGrid2 <
    20 * exact.largestOccupiedHullGapDoubledAreaGrid2)

def exactStrictRelativeDeficit (metrics : IntrinsicStrictCompletedMetrics F) :
    Option ExactFraction :=
  metrics.exact.map fun exact =>
    let placedCount : ℤ := exact.placedPieceCount
    let largestComponent : ℤ := exact.largestPositiveContactComponentSize
    let hull := exact.occupiedHullDoubledAreaGrid2
    let hullGap := exact.largestOccupiedHullGapDoubledAreaGrid2
    let total := addDeficit (decide (2 < metrics.enclosedCavityCount))
      (metrics.enclosedCavityCount - 2) 2 ⟨0, 1⟩
    let total := addDeficit (decide (2 < metrics.isolatedPieceCount))
      (metrics.isolatedPieceCount - 2) 2 total
    let total := addDeficit (largestComponentBelowFloor exact)
      (4 * placedCount - 5 * largestComponent) (4 * placedCount) total
    addDeficit (largestHullGapAboveFloor exact) (20 * hullGap - 3 * hull) (3 * hull) total

/-- A check of the certificate: whether the floor is violated, and by how much. -/
structure FloorCheck (F : Type) where
  violated : Bool
  floor : IntrinsicStrictCohesionFloor
  deficit : F

/-- The deficit of a count over its floor, relative to the floor. -/
def countDeficit (count maximum : ℕ) : F :=
  min 1 (JsNumber.ofNat (count - maximum) / max 1 (JsNumber.ofNat maximum))

def intrinsicStrictFloorChecks (metrics : IntrinsicStrictCompletedMetrics F) :
    List (FloorCheck F) :=
  let floors : IntrinsicStrictCohesionFloors F := intrinsicStrictCohesionFloors
  [⟨decide (floors.maximumEnclosedCavityCount < metrics.enclosedCavityCount),
      .maximumEnclosedCavityCount,
      countDeficit metrics.enclosedCavityCount floors.maximumEnclosedCavityCount⟩,
    ⟨decide (floors.maximumIsolatedPieceCount < metrics.isolatedPieceCount),
      .maximumIsolatedPieceCount,
      countDeficit metrics.isolatedPieceCount floors.maximumIsolatedPieceCount⟩,
    ⟨match metrics.exact with
      | none => decide (metrics.largestPositiveContactComponentRatio <
          floors.minimumLargestPositiveContactComponentRatio)
      | some exact => largestComponentBelowFloor exact,
      .minimumLargestPositiveContactComponentRatio,
      min 1 ((floors.minimumLargestPositiveContactComponentRatio -
        metrics.largestPositiveContactComponentRatio) /
          floors.minimumLargestPositiveContactComponentRatio)⟩,
    ⟨match metrics.exact with
      | none => decide (floors.maximumLargestOccupiedHullGapRatio <
          metrics.largestOccupiedHullGapRatio)
      | some exact => largestHullGapAboveFloor exact,
      .maximumLargestOccupiedHullGapRatio,
      min 1 ((metrics.largestOccupiedHullGapRatio -
        floors.maximumLargestOccupiedHullGapRatio) /
          floors.maximumLargestOccupiedHullGapRatio)⟩]

def evaluateIntrinsicStrictCertificate (metrics : IntrinsicStrictCompletedMetrics F) :
    IntrinsicStrictCertificate F :=
  let violations := (intrinsicStrictFloorChecks metrics).filter fun check => check.violated
  let exactRelativeDeficit := exactStrictRelativeDeficit metrics
  { passes := violations.isEmpty
    violatedFloors := violations.map fun check => check.floor
    relativeDeficitSum := violations.foldl (fun sum check => sum + check.deficit) 0
    exactRelativeDeficitNumerator := exactRelativeDeficit.map fun f => f.numerator
    exactRelativeDeficitDenominator := exactRelativeDeficit.map fun f => f.denominator }

/-! ## §3  Objectives -/

/-- `asc_cmp` and `desc_cmp`. -/
def ascCmp {α : Type} [LinearOrder α] (a b : α) : Ordering := compare a b

def descCmp {α : Type} [LinearOrder α] (a b : α) : Ordering := compare b a

/-- The order of two ratios by cross multiplication, or of their numerators where a
denominator is not positive. -/
def compareExactRatio (firstNumerator firstDenominator secondNumerator secondDenominator : ℤ) :
    Ordering :=
  if firstDenominator ≤ 0 ∨ secondDenominator ≤ 0 then compare firstNumerator secondNumerator
  else compare (firstNumerator * secondDenominator) (secondNumerator * firstDenominator)

def compareIntrinsicStrictCompactness (first second : IntrinsicStrictCompletedMetrics F) :
    Ordering :=
  match first.exact, second.exact with
  | some firstExact, some secondExact =>
      (ascCmp firstExact.envelopeMaximumSideGrid secondExact.envelopeMaximumSideGrid).then <|
        (ascCmp firstExact.envelopeAreaGrid2 secondExact.envelopeAreaGrid2).then <|
          ascCmp firstExact.envelopeSpanGrid secondExact.envelopeSpanGrid
  | _, _ =>
      (ascCmp (canonicalLinearMetric first.envelopeMaximumSideMm)
        (canonicalLinearMetric second.envelopeMaximumSideMm)).then <|
        (ascCmp (canonicalAreaMetric first.envelopeAreaMm2)
          (canonicalAreaMetric second.envelopeAreaMm2)).then <|
          ascCmp (canonicalLinearMetric first.envelopeSpanMm)
            (canonicalLinearMetric second.envelopeSpanMm)

def compareIntrinsicStrictVoidTopology (first second : IntrinsicStrictCompletedMetrics F) :
    Ordering :=
  (ascCmp first.enclosedCavityCount second.enclosedCavityCount).then <|
    match first.exact, second.exact with
    | some firstExact, some secondExact =>
        (ascCmp firstExact.totalEnclosedCavityDoubledAreaGrid2
          secondExact.totalEnclosedCavityDoubledAreaGrid2).then <|
          (compareExactRatio firstExact.largestOccupiedHullGapDoubledAreaGrid2
            firstExact.occupiedHullDoubledAreaGrid2
            secondExact.largestOccupiedHullGapDoubledAreaGrid2
            secondExact.occupiedHullDoubledAreaGrid2).then <|
            compareExactRatio firstExact.occupiedHullWasteDoubledAreaGrid2
              firstExact.occupiedHullDoubledAreaGrid2
              secondExact.occupiedHullWasteDoubledAreaGrid2
              secondExact.occupiedHullDoubledAreaGrid2
    | _, _ =>
        (ascCmp (canonicalAreaMetric first.totalEnclosedCavityAreaMm2)
          (canonicalAreaMetric second.totalEnclosedCavityAreaMm2)).then <|
          (ascCmp first.largestOccupiedHullGapRatio second.largestOccupiedHullGapRatio).then <|
            ascCmp first.occupiedHullWasteRatio second.occupiedHullWasteRatio

/-- The share of the pieces in the largest component, the larger first, then the area
outside it. -/
def compareLargestComponents (first second : IntrinsicStrictCompletedMetrics F) : Ordering :=
  match first.exact, second.exact with
  | some firstExact, some secondExact =>
      (compareExactRatio secondExact.largestPositiveContactComponentSize
        secondExact.placedPieceCount firstExact.largestPositiveContactComponentSize
        firstExact.placedPieceCount).then <|
        ascCmp firstExact.occupiedOutsideLargestContactComponentDoubledAreaGrid2
          secondExact.occupiedOutsideLargestContactComponentDoubledAreaGrid2
  | _, _ =>
      (descCmp first.largestPositiveContactComponentRatio
        second.largestPositiveContactComponentRatio).then <|
        ascCmp (canonicalAreaMetric first.occupiedAreaOutsideLargestContactComponentMm2)
          (canonicalAreaMetric second.occupiedAreaOutsideLargestContactComponentMm2)

def compareIntrinsicStrictContact (first second : IntrinsicStrictCompletedMetrics F) :
    Ordering :=
  (ascCmp first.isolatedPieceCount second.isolatedPieceCount).then <|
    (ascCmp first.positiveContactComponentCount second.positiveContactComponentCount).then <|
    (descCmp first.largestPositiveContactComponentSize
      second.largestPositiveContactComponentSize).then <|
    (compareLargestComponents first second).then <|
    (descCmp first.totalStructuralContacts second.totalStructuralContacts).then <|
    (descCmp first.dominantStructuralContacts second.dominantStructuralContacts).then <|
    (descCmp first.contactUnits second.contactUnits).then <|
      descCmp (canonicalLinearMetric first.sharedBoundaryLengthMm)
        (canonicalLinearMetric second.sharedBoundaryLengthMm)

/-! ## §4  Dominance and ranking -/

/-- An objective compares two layouts. -/
abbrev Objective (F : Type) : Type :=
  IntrinsicStrictCompletedMetrics F → IntrinsicStrictCompletedMetrics F → Ordering

/-- The loop over the objectives, which stops as soon as each layout is better in one. -/
def dominanceLoop (first second : IntrinsicStrictCompletedMetrics F) :
    List (Objective F) → Bool → Bool → Ordering
  | [], firstBetter, secondBetter =>
      if firstBetter then .lt else if secondBetter then .gt else .eq
  | objective :: objectives, firstBetter, secondBetter =>
      let comparison := objective first second
      let firstBetter := firstBetter || comparison == .lt
      let secondBetter := secondBetter || comparison == .gt
      if firstBetter && secondBetter then .eq
      else dominanceLoop first second objectives firstBetter secondBetter

def compareIntrinsicStrictCompletedLayoutDominance
    (first second : IntrinsicStrictCompletedMetrics F) : Ordering :=
  dominanceLoop first second
    [compareIntrinsicStrictCompactness, compareIntrinsicStrictVoidTopology] false false

def intrinsicStrictCompletedLayoutDominates
    (first second : IntrinsicStrictCompletedMetrics F) : Bool :=
  compareIntrinsicStrictCompletedLayoutDominance first second == .lt

def compareGeometryHashes (first second : IntrinsicStrictCompletedMetrics F) : Ordering :=
  localeCompareKeys first.canonicalGeometryHash second.canonicalGeometryHash

/-- The three objectives, each with the hash behind it. -/
def frontObjectives : List (Objective F) :=
  [compareIntrinsicStrictCompactness, compareIntrinsicStrictVoidTopology,
    compareIntrinsicStrictContact].map fun objective first second =>
      (objective first second).then (compareGeometryHashes first second)

def orderIntrinsicStrictParetoFront (frontier : List (IntrinsicStrictCompletedMetrics F)) :
    List (IntrinsicStrictCompletedMetrics F) :=
  ParetoPeeling.selectInTurns frontObjectives frontier.length frontier

def selectIntrinsicStrictCompletedParetoFront
    (layouts : List (IntrinsicStrictCompletedMetrics F)) :
    List (IntrinsicStrictCompletedMetrics F) :=
  orderIntrinsicStrictParetoFront
    (ParetoPeeling.front intrinsicStrictCompletedLayoutDominates layouts)

/-- What the loop appends where it finds no front. -/
def fallbackByHash (remaining : List (IntrinsicStrictCompletedMetrics F)) :
    List (IntrinsicStrictCompletedMetrics F) :=
  remaining.mergeSort fun first second => compareGeometryHashes first second != .gt

def rankIntrinsicStrictParetoPartition
    (layouts : List (IntrinsicStrictCompletedMetrics F)) :
    List (IntrinsicStrictCompletedMetrics F) :=
  ParetoPeeling.peel intrinsicStrictCompletedLayoutDominates orderIntrinsicStrictParetoFront
    fallbackByHash layouts.length layouts

def rankIntrinsicStrictCompletedLayouts
    (layouts : List (IntrinsicStrictCompletedMetrics F)) :
    List (IntrinsicStrictCompletedMetrics F) :=
  rankIntrinsicStrictParetoPartition layouts

/-! ## §5  The winner of the shared archive -/

structure IntrinsicSharedArchiveEndpoint (F : Type) where
  role : String
  sourceId : Option String
  sheetlessCanonicalGeometryIdentity : String
  sheetlessCanonicalGeometryHash : String
  metrics : IntrinsicStrictCompletedMetrics F
  certificate : IntrinsicStrictCertificate F
  deriving DecidableEq

/-- `make_intrinsic_shared_archive_endpoint` of a measured layout. -/
def makeIntrinsicSharedArchiveEndpoint (role : String) (sourceId : Option String)
    (canonicalGeometryIdentity : String) (metrics : IntrinsicStrictCompletedMetrics F) :
    IntrinsicSharedArchiveEndpoint F where
  role := role
  sourceId := sourceId
  sheetlessCanonicalGeometryIdentity := canonicalGeometryIdentity
  sheetlessCanonicalGeometryHash := metrics.canonicalGeometryHash
  metrics := metrics
  certificate := evaluateIntrinsicStrictCertificate metrics

def compareCertificateDeficit (first second : IntrinsicSharedArchiveEndpoint F) : Ordering :=
  match first.certificate.exactRelativeDeficitNumerator,
    first.certificate.exactRelativeDeficitDenominator,
    second.certificate.exactRelativeDeficitNumerator,
    second.certificate.exactRelativeDeficitDenominator with
  | some firstNum, some firstDen, some secondNum, some secondDen =>
      compare (firstNum * secondDen) (secondNum * firstDen)
  | _, _, _, _ =>
      ascCmp first.certificate.relativeDeficitSum second.certificate.relativeDeficitSum

def compareLargestHullGap (first second : IntrinsicSharedArchiveEndpoint F) : Ordering :=
  match first.metrics.exact, second.metrics.exact with
  | some firstExact, some secondExact =>
      compare
        (firstExact.largestOccupiedHullGapDoubledAreaGrid2 *
          secondExact.occupiedHullDoubledAreaGrid2)
        (secondExact.largestOccupiedHullGapDoubledAreaGrid2 *
          firstExact.occupiedHullDoubledAreaGrid2)
  | _, _ =>
      ascCmp first.metrics.largestOccupiedHullGapRatio second.metrics.largestOccupiedHullGapRatio

def compareEnvelope (first second : IntrinsicSharedArchiveEndpoint F) : Ordering :=
  match first.metrics.exact, second.metrics.exact with
  | some firstExact, some secondExact =>
      (compare firstExact.envelopeAreaGrid2 secondExact.envelopeAreaGrid2).then <|
        (ascCmp firstExact.envelopeMaximumSideGrid secondExact.envelopeMaximumSideGrid).then <|
          ascCmp firstExact.envelopeSpanGrid secondExact.envelopeSpanGrid
  | _, _ =>
      (ascCmp first.metrics.envelopeAreaMm2 second.metrics.envelopeAreaMm2).then <|
        (ascCmp first.metrics.envelopeMaximumSideMm second.metrics.envelopeMaximumSideMm).then <|
          ascCmp first.metrics.envelopeSpanMm second.metrics.envelopeSpanMm

def compareIntrinsicSharedArchiveWinner (first second : IntrinsicSharedArchiveEndpoint F) :
    Ordering :=
  (compareCertificateDeficit first second).then <|
    (ascCmp first.metrics.enclosedCavityCount second.metrics.enclosedCavityCount).then <|
    (compareLargestHullGap first second).then <|
    (compareEnvelope first second).then <|
      localeCompareKeys first.sheetlessCanonicalGeometryHash second.sheetlessCanonicalGeometryHash

def selectIntrinsicSharedArchiveWinner (archive : List (IntrinsicSharedArchiveEndpoint F)) :
    Option (IntrinsicSharedArchiveEndpoint F) :=
  let front := selectIntrinsicStrictCompletedParetoFront
    (archive.map fun endpoint => endpoint.metrics)
  let geometricFrontHashes := front.map fun metrics => metrics.canonicalGeometryHash
  let filtered := archive.filter fun endpoint =>
    geometricFrontHashes.contains endpoint.sheetlessCanonicalGeometryHash
  (filtered.mergeSort fun first second =>
    compareIntrinsicSharedArchiveWinner first second != .gt).head?

end PolygonNesting
