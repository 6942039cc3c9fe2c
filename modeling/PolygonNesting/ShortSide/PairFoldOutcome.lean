import PolygonNesting.Canonical.LayoutIdentity
import PolygonNesting.Search.Orientation
import PolygonNesting.ShortSide.ConstructStrip
import PolygonNesting.ShortSide.PairFold

/-!
# Outcomes of the directional constructions

A construction ends in an outcome: a trace and, where it was accepted, the placed pieces.
Acceptance is the identity of the placed and the requested pieces and nothing else; the
ratios of the admission are evidence.  An accepted outcome is ranked by its exact metrics
and its topology.

Texts of integers are the integers.  The measurements of the layout and the length of a
trace come from other subsystems and are the fields of `TerminalMeasures`.
-/

namespace PolygonNesting.PairFold

open ContactStrip (IntrinsicShortSideContactStripTrace)

variable {F : Type} [LinearOrder F] [Zero F] [One F] [Add F] [Sub F] [Neg F]
  [Mul F] [Div F] [JsMath F] {heap : ℕ → IrregularPlacedPiece F}

/-! ## §1  Traces -/

inductive IntrinsicShortSidePairFoldStatus where
  | accepted
  | skippedSquareSheet
  | noPair
  | noFittingPair
  | rejectedAdmission
  | deadline
  | memoryCap
  | traceCap
  | failedProtectedFallback
  deriving DecidableEq

inductive BoundedStatus where
  | deadline
  | memoryCap
  deriving DecidableEq

def BoundedStatus.asStr : BoundedStatus → String
  | .deadline => "deadline"
  | .memoryCap => "memory-cap"

def BoundedStatus.toStatus : BoundedStatus → IntrinsicShortSidePairFoldStatus
  | .deadline => .deadline
  | .memoryCap => .memoryCap

inductive IntrinsicShortSideConstructionKind where
  | pairFold
  | multiRowShelf
  | contactStrip
  deriving DecidableEq

inductive ShortSideOutputInfluence where
  | none
  | selected
  deriving DecidableEq

structure IntrinsicShortSidePairFoldAdmission (F : Type) where
  exactLegal : Bool
  allPiecesPlaced : Bool
  fillRatio : F
  depthWithinProductionMaximumSide : Bool
  projectionCoverageRatio : F
  projectionComponentCount : ℕ
  enclosedCavityCount : Option ℕ
  collisionEnvelopeDensity : F
  shortAxisSpanGainFactor : F
  envelopeAreaCostFactor : F
  directionallyEfficient : Bool
  envelopeAreaCostWithinProductionBound : Bool
  accepted : Bool

structure IntrinsicShortSideEnvelopeAreaCostVeto (F : Type) where
  constructionKind : IntrinsicShortSideConstructionKind
  admission : IntrinsicShortSidePairFoldAdmission F

structure IntrinsicShortSideInterlockingMetrics (F : Type) where
  largestOccupiedHullGapRatio : F
  largestOccupiedHullGapDoubledAreaGrid2 : ℤ
  occupiedHullDoubledAreaGrid2 : ℤ
  isolatedPieceCount : ℕ
  positiveContactComponentCount : ℕ
  largestPositiveContactComponentSize : ℕ
  sharedBoundaryLengthMm : F

structure IntrinsicShortSideConstructionSummary (F : Type) where
  usedShortAxisSpanMm : Option F
  usedLongAxisDepthMm : Option F
  envelopeAreaMm2 : Option F
  usedShortAxisSpanGrid : Option ℤ
  usedLongAxisDepthGrid : Option ℤ
  envelopeAreaGrid2 : Option ℤ
  collisionMaterialDoubledAreaGrid2 : Option ℤ
  admission : Option (IntrinsicShortSidePairFoldAdmission F)
  interlocking : Option (IntrinsicShortSideInterlockingMetrics F)
  status : IntrinsicShortSidePairFoldStatus
  failureReason : Option String

structure IntrinsicShortSideContactStripPromotion (F : Type) where
  incumbentConstructionKind : Option IntrinsicShortSideConstructionKind
  contactStripSummary : Option (IntrinsicShortSideConstructionSummary F)
  contactStripAdmitted : Bool
  fillNotRegressed : Option Bool
  envelopeAreaNotRegressed : Option Bool
  depthNotRegressed : Option Bool
  densityNotRegressed : Option Bool
  hullGapNotRegressed : Option Bool
  isolatedPiecesNotRegressed : Option Bool
  positiveContactComponentsNotRegressed : Option Bool
  largestContactComponentNotRegressed : Option Bool
  strictlyImproved : Option Bool
  promoted : Bool

structure IntrinsicShortSidePairFoldTrace (F : Type) where
  version : String
  status : IntrinsicShortSidePairFoldStatus
  outputInfluence : ShortSideOutputInfluence
  executionModel : String
  requestedShortAxisMm : F
  requestedLongAxisMm : F
  prescribedRotationDeg : Option ShortSideRotationDeg
  productionShortAxisSpanMm : F
  productionMaximumSideMm : F
  productionEnvelopeAreaMm2 : F
  productionShortAxisSpanGrid : F
  productionMaximumSideGrid : F
  productionEnvelopeAreaGrid2 : ℤ
  transformEvaluations : ℕ
  expectedPairCount : ℕ
  evaluatedPairCount : ℕ
  constructionKind : Option IntrinsicShortSideConstructionKind
  rowCount : ℕ
  selectedBottomPieceId : Option PieceId
  selectedUpperPieceId : Option PieceId
  placedCount : ℕ
  usedShortAxisSpanMm : Option F
  usedLongAxisDepthMm : Option F
  envelopeAreaMm2 : Option F
  usedShortAxisSpanGrid : Option ℤ
  usedLongAxisDepthGrid : Option ℤ
  envelopeAreaGrid2 : Option ℤ
  collisionMaterialDoubledAreaGrid2 : Option ℤ
  canonicalGeometryHash : Option String
  admission : Option (IntrinsicShortSidePairFoldAdmission F)
  interlocking : Option (IntrinsicShortSideInterlockingMetrics F)
  envelopeAreaCostVetoObserved : Bool
  envelopeAreaCostVetoes : List (IntrinsicShortSideEnvelopeAreaCostVeto F)
  contactStrip : Option (IntrinsicShortSideContactStripTrace F)
  contactStripLanes : List (IntrinsicShortSideContactStripTrace F)
  contactStripPromotion : Option (IntrinsicShortSideContactStripPromotion F)
  runtimeMs : F
  peakRssDeltaBytes : F
  serializedTraceBytes : ℕ
  failureReason : Option String

structure IntrinsicShortSidePairFoldOutcome (heap : ℕ → IrregularPlacedPiece F) where
  trace : IntrinsicShortSidePairFoldTrace F
  placedCollisionGeometries : Option (List (PlacedArc heap))

structure IntrinsicShortSidePairFoldInput (F : Type) where
  sheet : SheetSpec F
  preparedPieces : List (IrregularPreparedPiece F)
  productionShortAxisSpanMm : F
  productionMaximumSideMm : F
  productionEnvelopeAreaMm2 : F
  productionShortAxisSpanGrid : F
  productionMaximumSideGrid : F
  productionEnvelopeAreaGrid2 : ℤ

/-! ## §2  Measurements -/

/-- The measured topology and its exact areas. -/
structure TerminalTopology (F : Type) extends CanonicalLayoutTopologyExact where
  enclosedCavityCount : ℕ
  largestOccupiedHullGapRatio : F

structure TerminalMeasures (F : Type) where
  intersection : CanonicalGridPath → CanonicalGridPath → List CanonicalGridPath
  measureCanonicalLayoutTopologyExact :
    List (IrregularPlacedPiece F) → Option (TerminalTopology F)
  /-- The length of the shared boundary. -/
  measureCanonicalLayoutContacts : List (IrregularPlacedPiece F) → Option F
  sha256Hex : String → String
  /-- The length of the trace as JSON. -/
  byteLength : IntrinsicShortSidePairFoldTrace F → ℕ

structure PhysicalDimensions (F : Type) where
  shortAxisMm : F
  longAxisMm : F
  requestedShortAxisMm : F
  requestedLongAxisMm : F
  shortAxisGrid : ℤ
  longAxisGrid : ℤ
  requestedShortAxisGrid : ℤ
  requestedLongAxisGrid : ℤ

/-- The least and the greatest of some values. -/
def extent : List ℤ → Option (ℤ × ℤ)
  | [] => none
  | first :: rest => some (rest.foldl min first, rest.foldl max first)

def physicalDimensions (placed : List (IrregularPlacedPiece F)) (sheet : SheetSpec F) :
    Option (PhysicalDimensions F) := do
  let points := placed.flatMap fun entry => (placedCollisionWorldGridPath entry).getD []
  let (minX, maxX) ← extent (points.map CanonicalGridPoint.x)
  let (minY, maxY) ← extent (points.map CanonicalGridPoint.y)
  let widthGrid := maxX - minX
  let heightGrid := maxY - minY
  let requestedShortAxisMm := min sheet.width sheet.height
  let requestedLongAxisMm := max sheet.width sheet.height
  let requestedShortAxisGrid ← toGridMm requestedShortAxisMm
  let requestedLongAxisGrid ← toGridMm requestedLongAxisMm
  let axes := intrinsicShortSideAxes sheet
  let shortAxisGrid := if axes.shortAxis = .width then widthGrid else heightGrid
  let longAxisGrid := if axes.longAxis = .width then widthGrid else heightGrid
  some {
    shortAxisMm := fromGrid shortAxisGrid
    longAxisMm := fromGrid longAxisGrid
    requestedShortAxisMm, requestedLongAxisMm, shortAxisGrid, longAxisGrid
    requestedShortAxisGrid, requestedLongAxisGrid }

/-- Twice the area of all polygons. -/
def collisionMaterialArea (placed : List (IrregularPlacedPiece F)) : Option ℤ :=
  (placed.mapM placedCollisionWorldGridPath).map fun paths =>
    (paths.map canonicalGridAbsoluteDoubledArea).sum

structure ShortAxisProjectionMetrics (F : Type) where
  coverageRatio : F
  componentCount : ℕ
  coveredGrid : ℤ
  spanGrid : ℤ

/-- The merged intervals, the last first. -/
def mergeInterval (merged : List (ℤ × ℤ)) (interval : ℤ × ℤ) : List (ℤ × ℤ) :=
  match merged with
  | [] => [interval]
  | last :: rest =>
      if interval.1 ≤ last.2 then (last.1, max last.2 interval.2) :: rest
      else interval :: last :: rest

def shortAxisProjectionMetrics (placed : List (IrregularPlacedPiece F))
    (sheet : SheetSpec F) : ShortAxisProjectionMetrics F :=
  let shortAxis := (intrinsicShortSideAxes sheet).shortAxis
  let intervals := placed.filterMap fun entry =>
    extent (((placedCollisionWorldGridPath entry).getD []).map fun point =>
      if shortAxis = .width then point.x else point.y)
  let merged := (intervals.mergeSort fun first second => first.1 ≤ second.1).foldl
    mergeInterval []
  match merged.getLast?, merged.head? with
  | some first, some last =>
      let span := last.2 - first.1
      let covered := (merged.map fun interval => interval.2 - interval.1).sum
      { coverageRatio := if span ≤ 0 then 1 else JsMath.ofInt covered / JsMath.ofInt span
        componentCount := merged.length
        coveredGrid := covered
        spanGrid := span }
  | _, _ => ⟨0, 0, 0, 0⟩

/-- Three quarters of the area of the candidate are within that of the production. -/
def intrinsicShortSideEnvelopeAreaCostWithinProductionBound
    (candidateEnvelopeAreaGrid2 productionEnvelopeAreaGrid2 : ℤ) : Bool :=
  decide (3 * candidateEnvelopeAreaGrid2 ≤ 4 * productionEnvelopeAreaGrid2)

/-- Measured twice: the length is part of the text. -/
def withMeasuredTrace (measures : TerminalMeasures F)
    (trace : IntrinsicShortSidePairFoldTrace F) : IntrinsicShortSidePairFoldTrace F :=
  let measured := { trace with
    serializedTraceBytes := measures.byteLength trace }
  { measured with
    serializedTraceBytes := measures.byteLength measured }

def selectedOutputTraceSize (measures : TerminalMeasures F)
    (trace : IntrinsicShortSidePairFoldTrace F) : ℕ :=
  (withMeasuredTrace measures { trace with
    outputInfluence := .selected }).serializedTraceBytes

/-- `f64_to_bigint`. -/
def f64ToBigint (value : F) : ℤ := (JsNumber.floor value).getD 0

/-! ## §3  The incumbent -/

/-- How much of the short axis is filled: from 99 and from 80 percent. -/
def directionalFillTier (shortAxisSpanGrid requestedShortAxisGrid : ℤ) : ℕ :=
  if 99 * requestedShortAxisGrid ≤ 100 * shortAxisSpanGrid then 2
  else if 4 * requestedShortAxisGrid ≤ 5 * shortAxisSpanGrid then 1
  else 0

/-- Less gap of the hull, fewer isolated pieces, fewer components, a larger largest one; a
missing measurement last. -/
def compareInterlocking (first second : Option (IntrinsicShortSideInterlockingMetrics F)) :
    Ordering :=
  match first, second with
  | none, none => .eq
  | none, some _ => .gt
  | some _, none => .lt
  | some first, some second =>
      (compare
        (first.largestOccupiedHullGapDoubledAreaGrid2 * second.occupiedHullDoubledAreaGrid2)
        (second.largestOccupiedHullGapDoubledAreaGrid2 *
          first.occupiedHullDoubledAreaGrid2)).then <|
      (compare first.isolatedPieceCount second.isolatedPieceCount).then <|
      (compare first.positiveContactComponentCount
        second.positiveContactComponentCount).then <|
      compare second.largestPositiveContactComponentSize
        first.largestPositiveContactComponentSize

def enclosedCavityCount (outcome : IntrinsicShortSidePairFoldOutcome heap) : Option ℕ :=
  outcome.trace.admission.bind fun admission => admission.enclosedCavityCount

def compareDirectionalTopology (first second : IntrinsicShortSidePairFoldOutcome heap) :
    Ordering :=
  match enclosedCavityCount first, enclosedCavityCount second with
  | none, some _ => .gt
  | some _, none => .lt
  | none, none => compareInterlocking first.trace.interlocking second.trace.interlocking
  | some firstCount, some secondCount =>
      if firstCount ≠ secondCount then compare firstCount secondCount
      else compareInterlocking first.trace.interlocking second.trace.interlocking

structure ExactPromotionMetrics where
  shortAxisSpanGrid : ℤ
  requestedShortAxisGrid : ℤ
  longAxisDepthGrid : ℤ
  envelopeAreaGrid2 : ℤ
  materialDoubledAreaGrid2 : ℤ

def exactPromotionMetrics (outcome : IntrinsicShortSidePairFoldOutcome heap) :
    Option ExactPromotionMetrics := do
  let shortAxisSpanGrid ← outcome.trace.usedShortAxisSpanGrid
  let requestedShortAxisGrid ← toGridMm outcome.trace.requestedShortAxisMm
  let longAxisDepthGrid ← outcome.trace.usedLongAxisDepthGrid
  let envelopeAreaGrid2 ← outcome.trace.envelopeAreaGrid2
  let materialDoubledAreaGrid2 ← outcome.trace.collisionMaterialDoubledAreaGrid2
  some {
    shortAxisSpanGrid, requestedShortAxisGrid, longAxisDepthGrid, envelopeAreaGrid2
    materialDoubledAreaGrid2 }

inductive IncumbentChoice where
  | first
  | second
  deriving DecidableEq

def isAccepted (outcome : Option (IntrinsicShortSidePairFoldOutcome heap)) : Bool :=
  match outcome with
  | none => false
  | some outcome => outcome.trace.status == .accepted

/-- Two accepted outcomes: more fill below the top tier, then less area, less depth, the
better topology, the smaller hash. -/
def chooseExact (first second : IntrinsicShortSidePairFoldOutcome heap)
    (firstExact secondExact : ExactPromotionMetrics) : IncumbentChoice :=
  let firstFillTier := directionalFillTier firstExact.shortAxisSpanGrid
    firstExact.requestedShortAxisGrid
  let secondFillTier := directionalFillTier secondExact.shortAxisSpanGrid
    secondExact.requestedShortAxisGrid
  if firstFillTier ≠ secondFillTier then
    if secondFillTier < firstFillTier then .first else .second
  else if firstFillTier < 2 ∧
      firstExact.shortAxisSpanGrid ≠ secondExact.shortAxisSpanGrid then
    if secondExact.shortAxisSpanGrid < firstExact.shortAxisSpanGrid then .first else .second
  else if firstExact.envelopeAreaGrid2 ≠ secondExact.envelopeAreaGrid2 then
    if firstExact.envelopeAreaGrid2 < secondExact.envelopeAreaGrid2 then .first else .second
  else if firstExact.longAxisDepthGrid ≠ secondExact.longAxisDepthGrid then
    if firstExact.longAxisDepthGrid < secondExact.longAxisDepthGrid then .first else .second
  else if compareDirectionalTopology first second ≠ .eq then
    if compareDirectionalTopology first second = .lt then .first else .second
  else if localeCompareKeys (first.trace.canonicalGeometryHash.getD "")
      (second.trace.canonicalGeometryHash.getD "") ≠ .gt then .first
  else .second

/-- `none` where neither is accepted. -/
def selectDirectionalIncumbentChoice
    (first second : Option (IntrinsicShortSidePairFoldOutcome heap)) :
    Option IncumbentChoice :=
  if !isAccepted first then
    if isAccepted second then some .second else none
  else if !isAccepted second then some .first
  else
    match first, second with
    | some first, some second =>
        match exactPromotionMetrics first, exactPromotionMetrics second with
        | none, none => some .first
        | none, some _ => some .second
        | some _, none => some .first
        | some firstExact, some secondExact =>
            some (chooseExact first second firstExact secondExact)
    -- both are accepted, so both are there
    | _, _ => none

def selectDirectionalIncumbent
    (first second : Option (IntrinsicShortSidePairFoldOutcome heap)) :
    Option (IntrinsicShortSidePairFoldOutcome heap) :=
  match selectDirectionalIncumbentChoice first second with
  | some .first => first
  | some .second => second
  | none => none

/-! ## §4  The promotion contract -/

def constructionSummary (strip : IntrinsicShortSidePairFoldOutcome heap) :
    IntrinsicShortSideConstructionSummary F where
  usedShortAxisSpanMm := strip.trace.usedShortAxisSpanMm
  usedLongAxisDepthMm := strip.trace.usedLongAxisDepthMm
  envelopeAreaMm2 := strip.trace.envelopeAreaMm2
  usedShortAxisSpanGrid := strip.trace.usedShortAxisSpanGrid
  usedLongAxisDepthGrid := strip.trace.usedLongAxisDepthGrid
  envelopeAreaGrid2 := strip.trace.envelopeAreaGrid2
  collisionMaterialDoubledAreaGrid2 := strip.trace.collisionMaterialDoubledAreaGrid2
  admission := strip.trace.admission
  interlocking := strip.trace.interlocking
  status := strip.trace.status
  failureReason := strip.trace.failureReason

def unmeasuredPromotion (incumbent strip : Option (IntrinsicShortSidePairFoldOutcome heap))
    (contactStripAdmitted : Bool) : IntrinsicShortSideContactStripPromotion F where
  incumbentConstructionKind := incumbent.bind fun outcome => outcome.trace.constructionKind
  contactStripSummary := strip.map constructionSummary
  contactStripAdmitted := contactStripAdmitted
  fillNotRegressed := none
  envelopeAreaNotRegressed := none
  depthNotRegressed := none
  densityNotRegressed := none
  hullGapNotRegressed := none
  isolatedPiecesNotRegressed := none
  positiveContactComponentsNotRegressed := none
  largestContactComponentNotRegressed := none
  strictlyImproved := none
  promoted := false

/-- An incumbent without metrics is improved upon in every respect. -/
def unopposedPromotion (incumbent strip : Option (IntrinsicShortSidePairFoldOutcome heap))
    (contactStripAdmitted : Bool) : IntrinsicShortSideContactStripPromotion F where
  incumbentConstructionKind := incumbent.bind fun outcome => outcome.trace.constructionKind
  contactStripSummary := strip.map constructionSummary
  contactStripAdmitted := contactStripAdmitted
  fillNotRegressed := some true
  envelopeAreaNotRegressed := some true
  depthNotRegressed := some true
  densityNotRegressed := some true
  hullGapNotRegressed := some true
  isolatedPiecesNotRegressed := some true
  positiveContactComponentsNotRegressed := some true
  largestContactComponentNotRegressed := some true
  strictlyImproved := some true
  promoted := contactStripAdmitted

/-- The strip against the incumbent, in every respect. -/
def comparedPromotion (incumbent strip : IntrinsicShortSidePairFoldOutcome heap)
    (stripInterlocking incumbentInterlocking : IntrinsicShortSideInterlockingMetrics F)
    (stripExact incumbentExact : ExactPromotionMetrics) :
    IntrinsicShortSideContactStripPromotion F :=
  let contactStripAdmitted := strip.trace.status == .accepted
  let stripDensity := stripExact.materialDoubledAreaGrid2 * incumbentExact.envelopeAreaGrid2
  let incumbentDensity :=
    incumbentExact.materialDoubledAreaGrid2 * stripExact.envelopeAreaGrid2
  let stripGap := stripInterlocking.largestOccupiedHullGapDoubledAreaGrid2 *
    incumbentInterlocking.occupiedHullDoubledAreaGrid2
  let incumbentGap := incumbentInterlocking.largestOccupiedHullGapDoubledAreaGrid2 *
    stripInterlocking.occupiedHullDoubledAreaGrid2
  let fillNotRegressed :=
    decide (incumbentExact.shortAxisSpanGrid ≤ stripExact.shortAxisSpanGrid)
  let envelopeAreaNotRegressed :=
    decide (stripExact.envelopeAreaGrid2 ≤ incumbentExact.envelopeAreaGrid2)
  let depthNotRegressed :=
    decide (stripExact.longAxisDepthGrid ≤ incumbentExact.longAxisDepthGrid)
  let densityNotRegressed := decide (incumbentDensity ≤ stripDensity)
  let hullGapNotRegressed := decide (stripGap ≤ incumbentGap)
  let isolatedPiecesNotRegressed :=
    decide (stripInterlocking.isolatedPieceCount ≤ incumbentInterlocking.isolatedPieceCount)
  let positiveContactComponentsNotRegressed :=
    decide (stripInterlocking.positiveContactComponentCount ≤
      incumbentInterlocking.positiveContactComponentCount)
  let largestContactComponentNotRegressed :=
    decide (incumbentInterlocking.largestPositiveContactComponentSize ≤
      stripInterlocking.largestPositiveContactComponentSize)
  let strictlyImproved :=
    decide (incumbentExact.shortAxisSpanGrid < stripExact.shortAxisSpanGrid ∨
      stripExact.envelopeAreaGrid2 < incumbentExact.envelopeAreaGrid2 ∨
      stripExact.longAxisDepthGrid < incumbentExact.longAxisDepthGrid ∨
      incumbentDensity < stripDensity ∨ stripGap < incumbentGap ∨
      stripInterlocking.isolatedPieceCount < incumbentInterlocking.isolatedPieceCount ∨
      stripInterlocking.positiveContactComponentCount <
        incumbentInterlocking.positiveContactComponentCount ∨
      incumbentInterlocking.largestPositiveContactComponentSize <
        stripInterlocking.largestPositiveContactComponentSize)
  { incumbentConstructionKind := incumbent.trace.constructionKind
    contactStripSummary := some (constructionSummary strip)
    contactStripAdmitted := contactStripAdmitted
    fillNotRegressed := some fillNotRegressed
    envelopeAreaNotRegressed := some envelopeAreaNotRegressed
    depthNotRegressed := some depthNotRegressed
    densityNotRegressed := some densityNotRegressed
    hullGapNotRegressed := some hullGapNotRegressed
    isolatedPiecesNotRegressed := some isolatedPiecesNotRegressed
    positiveContactComponentsNotRegressed := some positiveContactComponentsNotRegressed
    largestContactComponentNotRegressed := some largestContactComponentNotRegressed
    strictlyImproved := some strictlyImproved
    promoted := contactStripAdmitted && fillNotRegressed && envelopeAreaNotRegressed &&
      depthNotRegressed && densityNotRegressed && hullGapNotRegressed &&
      isolatedPiecesNotRegressed && positiveContactComponentsNotRegressed &&
      largestContactComponentNotRegressed && strictlyImproved }

/-- Evidence for the trace; no selection reads it. -/
def evaluateIntrinsicShortSideContactStripPromotion
    (incumbent strip : Option (IntrinsicShortSidePairFoldOutcome heap))
    (stripTrace : IntrinsicShortSideContactStripTrace F) :
    IntrinsicShortSideContactStripPromotion F :=
  if stripTrace.status ≠ .constructed then unmeasuredPromotion incumbent strip false
  else
    match strip with
    | none => unmeasuredPromotion incumbent none false
    | some strip =>
        let contactStripAdmitted := strip.trace.status == .accepted
        match incumbent with
        | none => unmeasuredPromotion none (some strip) contactStripAdmitted
        | some incumbent =>
            match strip.trace.admission, strip.trace.interlocking,
                exactPromotionMetrics strip with
            | some _, some stripInterlocking, some stripExact =>
                match incumbent.trace.admission, incumbent.trace.interlocking,
                    exactPromotionMetrics incumbent with
                | some _, some incumbentInterlocking, some incumbentExact =>
                    comparedPromotion incumbent strip stripInterlocking incumbentInterlocking
                      stripExact incumbentExact
                | _, _, _ =>
                    unopposedPromotion (some incumbent) (some strip) contactStripAdmitted
            | _, _, _ => unmeasuredPromotion (some incumbent) (some strip) contactStripAdmitted

end PolygonNesting.PairFold
