import Mathlib.Data.Int.Notation
import Mathlib.Data.List.TakeWhile
import Mathlib.Data.Nat.Notation
import Mathlib.Tactic.Common
import PolygonNesting.Lib.Fallible

/-!
# DXF entities

The text of a drawing is read as pairs of a group code and a value; lines, arcs, circles and
ellipses of its entities section are kept in their order.  Their bounds are those of their ends
and extreme points, and they are emitted as segments shifted to the bounds.
-/

namespace PolygonNesting.Dxf

/-- The operations of doubles the importer takes beyond the signs of arithmetic. -/
class DoubleOps (F : Type) where
  ofInt : ℤ → F
  lt : F → F → Bool
  le : F → F → Bool
  eq : F → F → Bool
  min : F → F → F
  max : F → F → F
  ceil : F → F
  remEuclid : F → F → F
  isFinite : F → Bool
  toUsize : F → ℕ

class DoubleTrig (F : Type) where
  pi : F
  tau : F
  toRadians : F → F
  cos : F → F
  sin : F → F
  atan2 : F → F → F
  acos : F → F
  hypot : F → F → F

open DoubleOps DoubleTrig

def curveFallbackSegments : ℕ := 32

def minEllipseSegments : ℕ := 32

def maxEllipseSegments : ℕ := 2048

structure Point (F : Type) where
  x : F
  y : F

structure Line (F : Type) where
  start : Point F
  finish : Point F

structure Arc (F : Type) where
  center : Point F
  radius : F
  startAngle : F
  endAngle : F

structure Circle (F : Type) where
  center : Point F
  radius : F

structure Ellipse (F : Type) where
  center : Point F
  majorAxis : Point F
  axisRatio : F
  startParam : F
  endParam : F

inductive Entity (F : Type) where
  | line (line : Line F)
  | arc (arc : Arc F)
  | circle (circle : Circle F)
  | ellipse (ellipse : Ellipse F)

structure Bounds (F : Type) where
  minX : F
  minY : F
  maxX : F
  maxY : F

structure EllipseSource (F : Type) where
  sourceId : String
  cx : F
  cy : F
  majorAxisX : F
  majorAxisY : F
  axisRatio : F
  startAngle : F
  endAngle : F

structure SourceLineSegment (F : Type) where
  x1 : F
  y1 : F
  x2 : F
  y2 : F
  bulge : Option F
  sourceCurve : Option (EllipseSource F)

structure SourceArcSegment (F : Type) where
  x1 : F
  y1 : F
  x2 : F
  y2 : F
  cx : F
  cy : F
  radius : F
  startAngle : F
  endAngle : F

inductive SourceGeometrySegment (F : Type) where
  | line (line : SourceLineSegment F)
  | arc (arc : SourceArcSegment F)

/-! ## §1  Group codes -/

/-- The white space `str::trim` removes. -/
def isWhitespace (ch : Char) : Bool :=
  let code := ch.toNat
  (9 ≤ code && code ≤ 13) || code == 32 || code == 0x85 || code == 0xA0 || code == 0x1680 ||
    (0x2000 ≤ code && code ≤ 0x200A) || code == 0x2028 || code == 0x2029 || code == 0x202F ||
      code == 0x205F || code == 0x3000

def trim (line : List Char) : List Char :=
  ((line.dropWhile isWhitespace).reverse.dropWhile isWhitespace).reverse

/-- The lines of a text; what ends in a line feed has no empty line after it. -/
def linesFrom : List Char → List Char → List (List Char)
  | [], [] => []
  | line, [] => [line.reverse]
  | line, ch :: rest =>
      if ch = '\n' then line.reverse :: linesFrom [] rest else linesFrom (ch :: line) rest

def lines (text : String) : List String :=
  (linesFrom [] text.toList).map fun line => String.ofList (trim line)

def digitsValue (digits : List Char) : ℕ :=
  digits.foldl (fun value ch => value * 10 + (ch.toNat - '0'.toNat)) 0

/-- `str::parse::<i32>`. -/
def parseI32 (text : String) : Option ℤ :=
  let signed : Bool × List Char :=
    match text.toList with
    | '-' :: digits => (true, digits)
    | '+' :: digits => (false, digits)
    | digits => (false, digits)
  if signed.2.isEmpty || !signed.2.all Char.isDigit then none
  else
    let value : ℤ := if signed.1 then -(digitsValue signed.2 : ℤ) else digitsValue signed.2
    if -2147483648 ≤ value ∧ value ≤ 2147483647 then some value else none

/-- The lines two at a time; a pair whose first is no integer is left out. -/
def groupPairs : List String → Except String (List (ℤ × String))
  | [] => .ok []
  | [_] => .error "DXF contains an incomplete group-code pair"
  | code :: value :: rest => do
      let pairs ← groupPairs rest
      match parseI32 code with
      | none => return pairs
      | some code => return (code, value) :: pairs

section Model

variable {F : Type} [Add F] [Sub F] [Mul F] [Div F] [Neg F] [DoubleOps F] [DoubleTrig F]
  (parse : String → Option F)

def numeric (pairs : List (ℤ × String)) (code : ℤ) : Except String (Option F) :=
  match pairs.find? fun pair => pair.1 == code with
  | none => .ok none
  | some pair =>
      match parse pair.2 with
      | none => .error s!"DXF group code {code} is not numeric"
      | some value =>
          if isFinite value then .ok (some value)
          else .error s!"DXF group code {code} must be finite"

def requiredNumeric (pairs : List (ℤ × String)) (code : ℤ) : Except String F := do
  match ← numeric parse pairs code with
  | some value => return value
  | none => .error s!"DXF entity is missing required group code {code}"

def requiredPoint (pairs : List (ℤ × String)) (xCode yCode : ℤ) : Except String (Point F) := do
  let x ← requiredNumeric parse pairs xCode
  let y ← requiredNumeric parse pairs yCode
  return ⟨x, y⟩

def parseLine (pairs : List (ℤ × String)) : Except String (Line F) := do
  let start ← requiredPoint parse pairs 10 20
  let finish ← requiredPoint parse pairs 11 21
  return ⟨start, finish⟩

/-- The sweep from the start to a raw end angle, a turn more where that is not after it. -/
def arcSweep (startAngle rawEndAngle : F) : F :=
  let rawSweep := rawEndAngle - startAngle
  if le rawSweep (ofInt 0) then rawSweep + ofInt 360 else rawSweep

def parseArc (pairs : List (ℤ × String)) : Except String (Arc F) := do
  let radius ← requiredNumeric parse pairs 40
  if le radius (ofInt 0) then
    .error "ARC radius must be positive"
  else
    let startAngle ← requiredNumeric parse pairs 50
    let rawEndAngle ← requiredNumeric parse pairs 51
    let sweep := arcSweep startAngle rawEndAngle
    if !(lt (ofInt 0) sweep && le sweep (ofInt 360)) then
      .error "ARC angle sweep must be within one positive turn"
    else
      let center ← requiredPoint parse pairs 10 20
      return ⟨center, radius, startAngle, startAngle + sweep⟩

def parseCircle (pairs : List (ℤ × String)) : Except String (Circle F) := do
  let radius ← requiredNumeric parse pairs 40
  if le radius (ofInt 0) then
    .error "CIRCLE radius must be positive"
  else
    let center ← requiredPoint parse pairs 10 20
    return ⟨center, radius⟩

def ellipseSweep (ellipse : Ellipse F) : F :=
  if le ellipse.endParam ellipse.startParam then ellipse.endParam + tau - ellipse.startParam
  else ellipse.endParam - ellipse.startParam

def parseEllipse (pairs : List (ℤ × String)) : Except String (Ellipse F) := do
  let center ← requiredPoint parse pairs 10 20
  let majorAxis ← requiredPoint parse pairs 11 21
  let axisRatio ← requiredNumeric parse pairs 40
  let startParam ← numeric parse pairs 41
  let endParam ← numeric parse pairs 42
  return ⟨center, majorAxis, axisRatio, startParam.getD (ofInt 0), endParam.getD tau⟩

def checkedEllipse (pairs : List (ℤ × String)) : Except String (Ellipse F) := do
  let ellipse ← parseEllipse parse pairs
  if le (hypot ellipse.majorAxis.x ellipse.majorAxis.y) (ofInt 0) then
    .error "ELLIPSE major axis must have positive length"
  else if le ellipse.axisRatio (ofInt 0) then
    .error "ELLIPSE axis ratio must be a positive finite number"
  else
    let sweep := ellipseSweep ellipse
    if !isFinite sweep || le sweep (ofInt 0) || lt tau sweep then
      .error "ELLIPSE parameter sweep must be within one positive turn"
    else return ellipse

/-! ## §2  The entities section -/

inductive EntityType where
  | line
  | arc
  | circle
  | ellipse

def entityType (value : String) : Option EntityType :=
  if value = "LINE" then some .line
  else if value = "ARC" then some .arc
  else if value = "CIRCLE" then some .circle
  else if value = "ELLIPSE" then some .ellipse
  else none

def isPaperSpace (pairs : List (ℤ × String)) : Except String Bool := do
  match ← numeric parse pairs 67 with
  | none => return false
  | some value =>
      if eq value (ofInt 0) then return false
      else if eq value (ofInt 1) then return true
      else .error "DXF group code 67 must be the model-space or paper-space indicator"

def parseEntity (kind : EntityType) (pairs : List (ℤ × String)) : Except String (Entity F) :=
  match kind with
  | .line => Entity.line <$> parseLine parse pairs
  | .arc => Entity.arc <$> parseArc parse pairs
  | .circle => Entity.circle <$> parseCircle parse pairs
  | .ellipse => Entity.ellipse <$> checkedEllipse parse pairs

/-- The entity of a group, none in paper space. -/
def modelSpaceEntity (kind : EntityType) (pairs : List (ℤ × String)) :
    Except String (Option (Entity F)) := do
  if ← isPaperSpace parse pairs then return none
  else return some (← parseEntity parse kind pairs)

/-- The pairs up to the next group code 0. -/
def group (pairs : List (ℤ × String)) : List (ℤ × String) := pairs.takeWhile fun pair => pair.1 != 0

def afterGroup (pairs : List (ℤ × String)) : List (ℤ × String) :=
  pairs.dropWhile fun pair => pair.1 != 0

theorem length_afterGroup_le (pairs : List (ℤ × String)) :
    (afterGroup pairs).length ≤ pairs.length := List.length_dropWhile_le _ _

/-- The last name of a section's group. -/
def sectionName (pairs : List (ℤ × String)) : Option String :=
  ((group pairs).filter fun pair => pair.1 == 2).getLast?.map Prod.snd

def parsePairs (inEntitiesSection : Bool) : List (ℤ × String) → Except String (List (Entity F))
  | [] => .ok []
  | pair :: rest =>
      have := length_afterGroup_le rest
      if pair.1 = 0 ∧ pair.2 = "SECTION" then
        parsePairs (sectionName rest == some "ENTITIES") (afterGroup rest)
      else if pair.1 = 0 ∧ pair.2 = "ENDSEC" then parsePairs false rest
      else if !inEntitiesSection || pair.1 != 0 then parsePairs inEntitiesSection rest
      else
        match entityType pair.2 with
        | none => parsePairs inEntitiesSection rest
        | some kind => do
            let entity ← modelSpaceEntity parse kind (group rest)
            let others ← parsePairs inEntitiesSection (afterGroup rest)
            return entity.toList ++ others
termination_by pairs => pairs.length
decreasing_by all_goals simp only [List.length_cons]; omega

def parseEntities (text : String) : Except String (List (Entity F)) := do
  let pairs ← groupPairs (lines text)
  parsePairs parse false pairs

/-! ## §3  Bounds -/

/-- The multiples of a quarter turn up to a limit; `none` where as many tests as the fuel do not
end the loop. -/
def extremeAngles : ℕ → F → F → Option (List F)
  | 0, _, _ => none
  | fuel + 1, angle, limit =>
      if le angle limit then (extremeAngles fuel (angle + ofInt 90) limit).map (angle :: ·)
      else some []

/-- The sweep of an arc, a full turn where it is none. -/
def boundsSweep (arc : Arc F) : F :=
  let span := remEuclid (arc.endAngle - arc.startAngle) (ofInt 360)
  if eq span (ofInt 0) then ofInt 360 else span

def firstExtremeAngle (arc : Arc F) : F := ceil (arc.startAngle / ofInt 90) * ofInt 90

def extremeLimit (arc : Arc F) : F := arc.startAngle + boundsSweep arc

def arcAngles (fuel : ℕ) (arc : Arc F) : Option (List F) :=
  (extremeAngles fuel (firstExtremeAngle arc) (extremeLimit arc)).map fun angles =>
    [arc.startAngle, extremeLimit arc] ++ angles

def pointOnArc (arc : Arc F) (angleDegrees : F) : Point F :=
  let angle := toRadians angleDegrees
  ⟨arc.center.x + arc.radius * cos angle, arc.center.y + arc.radius * sin angle⟩

def minorAxis (ellipse : Ellipse F) : Point F :=
  ⟨-ellipse.majorAxis.y * ellipse.axisRatio, ellipse.majorAxis.x * ellipse.axisRatio⟩

def ellipsePoint (ellipse : Ellipse F) (parameter : F) : Point F :=
  ⟨ellipse.center.x + ellipse.majorAxis.x * cos parameter +
      (minorAxis ellipse).x * sin parameter,
    ellipse.center.y + ellipse.majorAxis.y * cos parameter +
      (minorAxis ellipse).y * sin parameter⟩

/-- The parameters where a coordinate of an ellipse is extreme, up to whole turns. -/
def extremeBases (ellipse : Ellipse F) : List F :=
  [atan2 (minorAxis ellipse).x ellipse.majorAxis.x,
    atan2 (minorAxis ellipse).x ellipse.majorAxis.x + pi,
    atan2 (minorAxis ellipse).y ellipse.majorAxis.y,
    atan2 (minorAxis ellipse).y ellipse.majorAxis.y + pi]

def ellipseParameters (ellipse : Ellipse F) : List F :=
  let finish := ellipse.startParam + ellipseSweep ellipse
  [ellipse.startParam, finish] ++
    ((extremeBases ellipse).map fun base =>
      base + ceil ((ellipse.startParam - base) / tau) * tau).filter fun parameter =>
        le parameter finish

def ellipseExtremePoints (ellipse : Ellipse F) : List (Point F) :=
  (ellipseParameters ellipse).map (ellipsePoint ellipse)

def entityPoints (fuel : ℕ) : Entity F → Option (List (Point F))
  | .line line => some [line.start, line.finish]
  | .arc arc => (arcAngles fuel arc).map fun angles => angles.map (pointOnArc arc)
  | .circle circle =>
      some [⟨circle.center.x - circle.radius, circle.center.y - circle.radius⟩,
        ⟨circle.center.x + circle.radius, circle.center.y + circle.radius⟩]
  | .ellipse ellipse => some (ellipseExtremePoints ellipse)

def extendBounds (bounds : Bounds F) (point : Point F) : Bounds F :=
  ⟨min bounds.minX point.x, min bounds.minY point.y, max bounds.maxX point.x,
    max bounds.maxY point.y⟩

def pointsBounds : List (Point F) → Option (Bounds F)
  | [] => none
  | first :: rest => some (rest.foldl extendBounds ⟨first.x, first.y, first.x, first.y⟩)

/-- The bounds; the outer `none` where a loop over extreme angles does not end. -/
def computeBounds (fuel : ℕ) (entities : List (Entity F)) : Option (Option (Bounds F)) :=
  (entities.mapM (entityPoints fuel)).map fun points => pointsBounds points.flatten

/-! ## §4  Segments -/

def normalize (bounds : Bounds F) (point : Point F) : Point F :=
  ⟨point.x - bounds.minX, point.y - bounds.minY⟩

def chainSegment (bounds : Bounds F) (sourceCurve : Option (EllipseSource F))
    (start finish : Point F) : SourceGeometrySegment F :=
  let start := normalize bounds start
  let finish := normalize bounds finish
  .line ⟨start.x, start.y, finish.x, finish.y, none, sourceCurve⟩

/-- The segments between the points of a chain. -/
def lineChain (bounds : Bounds F) (sourceCurve : Option (EllipseSource F))
    (points : List (Point F)) : List (SourceGeometrySegment F) :=
  points.zipWith (chainSegment bounds sourceCurve) points.tail

def sampleArc (arc : Arc F) (segments : ℕ) : List (Point F) :=
  let start := toRadians arc.startAngle
  let finish := toRadians arc.endAngle
  let span := if le finish start then finish + tau - start else finish - start
  (List.range (segments + 1)).map fun index : ℕ =>
    let angle := start + span * ofInt index / ofInt segments
    ⟨arc.center.x + arc.radius * cos angle, arc.center.y + arc.radius * sin angle⟩

def sampleEllipse (ellipse : Ellipse F) (segments : ℕ) : List (Point F) :=
  (List.range (segments + 1)).map fun index : ℕ =>
    ellipsePoint ellipse
      (ellipse.startParam + ellipseSweep ellipse * ofInt index / ofInt segments)

def ellipseSagToleranceMm : F := ofInt 1 / ofInt 4

def ellipseSegmentCount (majorLength axisRatio : F) : ℕ :=
  let longAxis := majorLength * max axisRatio (ofInt 1)
  let shortAxis := majorLength * min axisRatio (ofInt 1)
  if !(lt (ofInt 0) longAxis && lt (ofInt 0) shortAxis) then minEllipseSegments
  else
    let worstRadius := longAxis * longAxis / shortAxis
    if le worstRadius ellipseSagToleranceMm then minEllipseSegments
    else
      let maxChordAngle := ofInt 2 * acos (ofInt 1 - ellipseSagToleranceMm / worstRadius)
      Nat.max minEllipseSegments
        (Nat.min (toUsize (ceil (tau / maxChordAngle))) maxEllipseSegments)

def samplerSpan (arc : Arc F) : F :=
  if le arc.endAngle arc.startAngle then arc.endAngle + ofInt 360 - arc.startAngle
  else arc.endAngle - arc.startAngle

def arcSegments (bounds : Bounds F) (arc : Arc F) : List (SourceGeometrySegment F) :=
  let span := samplerSpan arc
  if le span (ofInt 0) || lt (ofInt 360) span then
    lineChain bounds none (sampleArc arc curveFallbackSegments)
  else
    let startAngle := remEuclid arc.startAngle (ofInt 360)
    let endAngle := startAngle + span
    let center := normalize bounds arc.center
    let start := normalize bounds (pointOnArc arc startAngle)
    let finish := normalize bounds (pointOnArc arc endAngle)
    [.arc ⟨start.x, start.y, finish.x, finish.y, center.x, center.y, arc.radius, startAngle,
      endAngle⟩]

def halfCircle (center : Point F) (radius : F) (startAngle endAngle : F) :
    SourceGeometrySegment F :=
  let startRadians := toRadians startAngle
  let endRadians := toRadians endAngle
  .arc ⟨center.x + radius * cos startRadians, center.y + radius * sin startRadians,
    center.x + radius * cos endRadians, center.y + radius * sin endRadians, center.x, center.y,
    radius, startAngle, endAngle⟩

def circleSegments (bounds : Bounds F) (circle : Circle F) : List (SourceGeometrySegment F) :=
  let center := normalize bounds circle.center
  [halfCircle center circle.radius (ofInt 0) (ofInt 180),
    halfCircle center circle.radius (ofInt 180) (ofInt 360)]

def ellipseCurve (bounds : Bounds F) (index : ℕ) (ellipse : Ellipse F) : EllipseSource F :=
  let center := normalize bounds ellipse.center
  ⟨s!"ellipse:{index}", center.x, center.y, ellipse.majorAxis.x, ellipse.majorAxis.y,
    ellipse.axisRatio, ellipse.startParam, ellipse.endParam⟩

def ellipseSegments (bounds : Bounds F) (index : ℕ) (ellipse : Ellipse F) :
    List (SourceGeometrySegment F) :=
  let majorLength := hypot ellipse.majorAxis.x ellipse.majorAxis.y
  lineChain bounds (some (ellipseCurve bounds index ellipse))
    (sampleEllipse ellipse (ellipseSegmentCount majorLength ellipse.axisRatio))

/-- The segments of an entity; ellipses are counted from an index. -/
def entitySegments (bounds : Bounds F) (ellipseIndex : ℕ) :
    Entity F → List (SourceGeometrySegment F)
  | .line line => [chainSegment bounds none line.start line.finish]
  | .arc arc => arcSegments bounds arc
  | .circle circle => circleSegments bounds circle
  | .ellipse ellipse => ellipseSegments bounds ellipseIndex ellipse

def nextEllipseIndex (ellipseIndex : ℕ) : Entity F → ℕ
  | .ellipse _ => ellipseIndex + 1
  | _ => ellipseIndex

def segmentsFrom (bounds : Bounds F) (ellipseIndex : ℕ) :
    List (Entity F) → List (SourceGeometrySegment F)
  | [] => []
  | entity :: rest =>
      entitySegments bounds ellipseIndex entity ++
        segmentsFrom bounds (nextEllipseIndex ellipseIndex entity) rest

def finiteSegment : SourceGeometrySegment F → Bool
  | .line line => [line.x1, line.y1, line.x2, line.y2].all isFinite
  | .arc arc => [arc.x1, arc.y1, arc.x2, arc.y2, arc.cx, arc.cy, arc.radius, arc.startAngle,
      arc.endAngle].all isFinite

def sourceSegments (entities : List (Entity F)) (bounds : Bounds F) :
    Except String (List (SourceGeometrySegment F)) :=
  let segments := segmentsFrom bounds 0 entities
  if segments.any fun segment => !finiteSegment segment then
    .error "DXF conversion produced a non-finite geometry coordinate"
  else .ok segments

/-! ## §5  Imported pieces -/

structure ImportedPiece (F : Type) where
  id : String
  realWidth : F
  realHeight : F
  segments : List (SourceGeometrySegment F)

def Bounds.width (bounds : Bounds F) : F := bounds.maxX - bounds.minX

def Bounds.height (bounds : Bounds F) : F := bounds.maxY - bounds.minY

/-- The piece of entities and their bounds. -/
def importedPiece (id : String) (entities : List (Entity F)) (bounds : Bounds F) :
    Except String (ImportedPiece F) :=
  if !([bounds.minX, bounds.minY, bounds.maxX, bounds.maxY, bounds.width, bounds.height].all
      isFinite) then
    .error "DXF geometry bounds must be finite"
  else do
    let segments ← sourceSegments entities bounds
    if segments.isEmpty then
      .error "supported DXF entities produced no usable geometry segments"
    else
      let realWidth := max (ceil bounds.width) (ofInt 1)
      let realHeight := max (ceil bounds.height) (ofInt 1)
      if !isFinite realWidth || !isFinite realHeight then
        .error "DXF dimensions exceed the supported range"
      else return ⟨id, realWidth, realHeight, segments⟩

/-- The piece of a file's text; `none` where the fuel does not end the loop over an arc's
angles. -/
def importFile (fuel : ℕ) (id text : String) : Option (Except String (ImportedPiece F)) :=
  match parseEntities parse text with
  | .error message => some (.error message)
  | .ok entities =>
      (computeBounds fuel entities).map fun
        | none => .error "no supported LINE, ARC, CIRCLE, or ELLIPSE geometry"
        | some bounds => importedPiece id entities bounds

/-! ## §6  What is accepted -/

omit [Add F] [Sub F] [Mul F] [Div F] [Neg F] [DoubleTrig F] in
theorem isFinite_of_numeric {pairs : List (ℤ × String)} {code : ℤ} {value : F}
    (h : numeric parse pairs code = .ok (some value)) : isFinite value = true := by
  unfold numeric at h
  split at h
  · cases h
  · split at h
    · cases h
    · split at h
      · next hfinite =>
        cases h
        exact hfinite
      · cases h

omit [Add F] [Sub F] [Mul F] [Div F] [Neg F] [DoubleTrig F] in
theorem isFinite_of_requiredNumeric {pairs : List (ℤ × String)} {code : ℤ} {value : F}
    (h : requiredNumeric parse pairs code = .ok value) : isFinite value = true := by
  unfold requiredNumeric at h
  obtain ⟨found, hfound, hvalue⟩ := except_bind_eq_ok h
  cases found with
  | none => cases hvalue
  | some found =>
      cases hvalue
      exact isFinite_of_numeric parse hfound

omit [Mul F] [Div F] [Neg F] [DoubleTrig F] in
/-- An accepted arc has a radius and a sweep within a turn. -/
theorem parseArc_spec {pairs : List (ℤ × String)} {arc : Arc F}
    (h : parseArc parse pairs = .ok arc) :
    le arc.radius (ofInt 0) = false ∧ isFinite arc.startAngle = true ∧ ∃ sweep : F,
      lt (ofInt 0) sweep = true ∧ le sweep (ofInt 360) = true ∧
        arc.endAngle = arc.startAngle + sweep := by
  unfold parseArc at h
  obtain ⟨radius, -, h⟩ := except_bind_eq_ok h
  split at h
  · cases h
  next hradius =>
  obtain ⟨startAngle, hstart, h⟩ := except_bind_eq_ok h
  obtain ⟨rawEndAngle, -, h⟩ := except_bind_eq_ok h
  dsimp only at h
  split at h
  · cases h
  next hsweep =>
  obtain ⟨center, -, h⟩ := except_bind_eq_ok h
  cases h
  rw [Bool.not_eq_true', Bool.not_eq_false, Bool.and_eq_true] at hsweep
  exact ⟨Bool.eq_false_iff.2 hradius, isFinite_of_requiredNumeric parse hstart, _, hsweep.1,
    hsweep.2, rfl⟩

omit [Add F] [Sub F] [Mul F] [Div F] [Neg F] [DoubleTrig F] in
theorem parseCircle_spec {pairs : List (ℤ × String)} {circle : Circle F}
    (h : parseCircle parse pairs = .ok circle) : le circle.radius (ofInt 0) = false := by
  unfold parseCircle at h
  obtain ⟨radius, -, h⟩ := except_bind_eq_ok h
  split at h
  · cases h
  next hradius =>
  obtain ⟨center, -, h⟩ := except_bind_eq_ok h
  cases h
  exact Bool.eq_false_iff.2 hradius

omit [Mul F] [Div F] [Neg F] in
theorem checkedEllipse_spec {pairs : List (ℤ × String)} {ellipse : Ellipse F}
    (h : checkedEllipse parse pairs = .ok ellipse) :
    le (ellipseSweep ellipse) (ofInt 0) = false ∧ lt tau (ellipseSweep ellipse) = false := by
  unfold checkedEllipse at h
  obtain ⟨found, -, h⟩ := except_bind_eq_ok h
  split at h
  · cases h
  split at h
  · cases h
  dsimp only at h
  split at h
  · cases h
  next hsweep =>
  cases h
  rw [Bool.or_eq_true, Bool.or_eq_true, not_or, not_or] at hsweep
  exact ⟨Bool.eq_false_iff.2 hsweep.1.2, Bool.eq_false_iff.2 hsweep.2⟩

omit [Mul F] [Div F] [Neg F] in
/-- **Every entity kept was parsed from a group**, in model space. -/
theorem mem_parsePairs {inEntitiesSection : Bool} {pairs : List (ℤ × String)}
    {entities : List (Entity F)}
    (h : parsePairs parse inEntitiesSection pairs = .ok entities) {entity : Entity F}
    (hmem : entity ∈ entities) : ∃ kind pairs, parseEntity parse kind pairs = .ok entity := by
  induction inEntitiesSection, pairs using parsePairs.induct generalizing entities with
  | case1 inEntitiesSection =>
      rw [parsePairs] at h
      cases h
      cases hmem
  | case2 inEntitiesSection pair rest _ hsection ih =>
      rw [parsePairs, if_pos hsection] at h
      exact ih h hmem
  | case3 inEntitiesSection pair rest _ hsection hend ih =>
      rw [parsePairs, if_neg hsection, if_pos hend] at h
      exact ih h hmem
  | case4 inEntitiesSection pair rest _ hsection hend houtside ih =>
      rw [parsePairs, if_neg hsection, if_neg hend, if_pos houtside] at h
      exact ih h hmem
  | case5 inEntitiesSection pair rest _ hsection hend houtside hkind ih =>
      rw [parsePairs, if_neg hsection, if_neg hend, if_neg houtside, hkind] at h
      exact ih h hmem
  | case6 inEntitiesSection pair rest _ hsection hend houtside kind hkind ih =>
      rw [parsePairs, if_neg hsection, if_neg hend, if_neg houtside, hkind] at h
      obtain ⟨found, hfound, h⟩ := except_bind_eq_ok h
      obtain ⟨others, hothers, h⟩ := except_bind_eq_ok h
      cases h
      rcases List.mem_append.1 hmem with hmem | hmem
      · obtain rfl := Option.mem_toList.1 hmem
        unfold modelSpaceEntity at hfound
        obtain ⟨paper, -, hfound⟩ := except_bind_eq_ok hfound
        cases paper with
        | true => cases hfound
        | false =>
            obtain ⟨parsed, hparsed, hfound⟩ := except_bind_eq_ok hfound
            cases hfound
            exact ⟨kind, _, hparsed⟩
      · exact ih hothers hmem

omit [Mul F] [Div F] [Neg F] in
theorem mem_parseEntities {text : String} {entities : List (Entity F)}
    (h : parseEntities parse text = .ok entities) {entity : Entity F} (hmem : entity ∈ entities) :
    ∃ kind pairs, parseEntity parse kind pairs = .ok entity := by
  obtain ⟨pairs, -, h⟩ := except_bind_eq_ok h
  exact mem_parsePairs parse h hmem

end Model

end PolygonNesting.Dxf
