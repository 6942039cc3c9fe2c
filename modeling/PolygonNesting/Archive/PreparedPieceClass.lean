import PolygonNesting.Caches.GeometryCacheIdentity
import PolygonNesting.Canonical.GridMath
import PolygonNesting.Canonical.LayoutIdentity
import PolygonNesting.Checkpoints.CanonicalJson
import PolygonNesting.Lib.Comparator
import PolygonNesting.Lib.Fallible
import PolygonNesting.Lib.SeparatedText

/-!
# Classes of prepared pieces

A reconstruction does not decode an order of pieces twice.  Two orders are compared by a text
that joins one key a piece; the key writes the collision ring from its lower left corner, the
reference point from the same corner, the mirror permission and the sorted transforms.

The coordinates are grid numbers of the source, so the offsets from the corner are rounded.
Where they are exact, the key names the class of the piece, and the text the classes of the
order.
-/

namespace PolygonNesting

open Binary64

/-! ## §1  The grid coordinates of a piece -/

/-- `to_grid_mm` on the numbers of the source. -/
def toGridNumber (valueMm : Number) : Option Number :=
  if !valueMm.isFinite then none
  else
    let scaledAbsoluteValue := valueMm.abs.mul (Number.ofInt 1000)
    if !scaledAbsoluteValue.isFinite then none
    else
      let roundedAbsoluteValue := (scaledAbsoluteValue.add (Binary64.round (1 / 2))).floor
      let gridValue := valueMm.sign.mul roundedAbsoluteValue
      if isCanonicalGridCoordinate gridValue then some gridValue else none

/-- Both coordinates of a point; none off the grid. -/
def gridCoordinates (point : IrregularPoint Number) : Option NumberGridPoint := do
  let x ← toGridNumber point.x
  let y ← toGridNumber point.y
  some ⟨x, y⟩

/-- A prepared piece with its mirror permission. -/
structure MirrorablePiece extends IrregularPreparedPiece Number where
  allowMirror : Bool

def MirrorablePiece.preparedPieceId (piece : MirrorablePiece) : PieceId :=
  piece.pieceId.getD piece.sourceId

/-! ## §2  The keys -/

section Keys

variable (text : Number → String)

def numberPointKey (point : NumberGridPoint) : String := text point.x ++ "," ++ text point.y

/-- The least text of the ring's rotations in both directions. -/
def canonicalPointRing (points : List NumberGridPoint) : String :=
  if points.isEmpty then ""
  else
    let variants := [points, points.reverse].flatMap fun sequence =>
      (List.range sequence.length).map fun offset =>
        ";".intercalate ((sequence.drop offset ++ sequence.take offset).map (numberPointKey text))
    (variants.mergeSort keyLe).head?.getD ""

/-- By index, angle, mirror flag and reason; numbers without an order tie. -/
def compareTransforms (first second : IrregularTransformCandidate Number) : Ordering :=
  ((first.index.partialCmp second.index).getD .eq).then <|
  ((first.rotationDeg.partialCmp second.rotationDeg).getD .eq).then <|
  (compare first.mirrored.toNat second.mirrored.toNat).then <|
  localeCompareKeys (Caches.transformReasonStr first.reason)
    (Caches.transformReasonStr second.reason)

def flagText (flag : Bool) : String := if flag then "1" else "0"

def transformText (transform : IrregularTransformCandidate Number) : String :=
  text transform.index ++ ":" ++ text transform.rotationDeg ++ ":" ++
    flagText transform.mirrored ++ ":" ++ Caches.transformReasonStr transform.reason

/-- The least coordinates of a ring, infinite without vertices. -/
def gridMinimum (points : List NumberGridPoint) : NumberGridPoint where
  x := points.foldl (fun least point => least.min point.x) (.infinity false)
  y := points.foldl (fun least point => least.min point.y) (.infinity false)

def NumberGridPoint.sub (point minimum : NumberGridPoint) : NumberGridPoint :=
  ⟨point.x.sub minimum.x, point.y.sub minimum.y⟩

def intrinsicPreparedPieceClassKey (piece : MirrorablePiece) : String :=
  match piece.collisionGeometry.collisionPolygon.points.mapM gridCoordinates with
  | none => "piece:" ++ piece.preparedPieceId
  | some gridPoints =>
      let minimum := gridMinimum gridPoints
      let normalized := gridPoints.map (·.sub minimum)
      match gridCoordinates piece.collisionGeometry.placementReference with
      | none => "piece:" ++ piece.preparedPieceId
      | some reference =>
          let transforms := piece.transforms.mergeSort fun first second =>
            compareTransforms first second != .gt
          canonicalPointRing text normalized ++ "@" ++ text (reference.sub minimum).x ++ "," ++
            text (reference.sub minimum).y ++ ":" ++ flagText piece.allowMirror ++ ":" ++
            ",".intercalate (transforms.map (transformText text))

def intrinsicReconstructionEffectiveOrderKey (pieces : List MirrorablePiece) : String :=
  "|".intercalate (pieces.map (intrinsicPreparedPieceClassKey text))

end Keys

/-- What is known of the texts of numbers. -/
structure KeyText (text : Number → String) : Prop where
  symbols : ∀ value, ∀ ch ∈ (text value).toList, ch.isAlphanum = true ∨ ch ∈ ['.', '-', '+']
  injective : Function.Injective text

/-! ## §3  Pieces on the grid -/

/-- The lower left corner of a ring, the origin without vertices. -/
def ringCorner (ring : List SafeGridPoint) : CanonicalGridPoint :=
  lowerLeft (ring.map SafeGridPoint.toCanonicalGridPoint)

/-- A piece with grid coordinates, whose offsets from the corner of its ring are numbers of
the source and whose transforms are ordered. -/
structure GridPiece extends MirrorablePiece where
  ring : List SafeGridPoint
  reference : SafeGridPoint
  ring_onGrid : collisionGeometry.collisionPolygon.points.mapM gridCoordinates =
    some (ring.map SafeGridPoint.toNumber)
  reference_onGrid : gridCoordinates collisionGeometry.placementReference =
    some reference.toNumber
  offsets : ∀ point ∈ reference :: ring,
    Representable ((point.x - (ringCorner ring).x : ℤ) : ℚ) ∧
      Representable ((point.y - (ringCorner ring).y : ℤ) : ℚ)
  numeric : ∀ transform ∈ transforms,
    transform.index.isNan = false ∧ transform.rotationDeg.isNan = false

namespace GridPiece

/-- The ring with whole coordinates. -/
def path (piece : GridPiece) : CanonicalGridPath :=
  piece.ring.map SafeGridPoint.toCanonicalGridPoint

/-- The same ring up to translation, start vertex and winding, the reference point moved
along; the same mirror permission; the same transforms. -/
def SameClass (piece piece' : GridPiece) : Prop :=
  (∃ dx dy : ℤ, SameRing (piece.path.map (translateGridPoint dx dy)) piece'.path ∧
    translateGridPoint dx dy piece.reference.toCanonicalGridPoint =
      piece'.reference.toCanonicalGridPoint) ∧
  piece.allowMirror = piece'.allowMirror ∧ piece.transforms.Perm piece'.transforms

end GridPiece

/-! ## §4  The text of a ring -/

/-- The sorted texts of the writings begin with the cyclic key. -/
theorem canonicalPointRing_eq (text : Number → String) (points : List NumberGridPoint) :
    canonicalPointRing text points =
      canonicalBidirectionalCyclicKey (points.map (numberPointKey text)) := by
  by_cases hne : points = []
  · rw [hne]
    exact (if_pos rfl).symm
  have hpos := List.length_pos_iff.2 hne
  unfold canonicalPointRing
  rw [if_neg (by simpa using hne)]
  dsimp only
  set tokens := points.map (numberPointKey text) with htokens
  have htokensNe : tokens ≠ [] := by simpa [htokens] using hne
  obtain ⟨⟨words, hwords, hkey⟩, hleast⟩ := canonicalBidirectionalCyclicKey_spec htokensNe
  set variants := [points, points.reverse].flatMap fun sequence =>
    (List.range sequence.length).map fun offset =>
      ";".intercalate ((sequence.drop offset ++ sequence.take offset).map (numberPointKey text))
    with hvariants
  have hvariant : ∀ sequence ∈ [points, points.reverse], ∀ offset < points.length,
      ";".intercalate ((sequence.map (numberPointKey text)).rotate offset) ∈ variants := by
    intro sequence hsequence offset hoffset
    have hlength : sequence.length = points.length := by
      rcases List.mem_pair.1 hsequence with rfl | rfl
      · rfl
      · exact List.length_reverse
    refine List.mem_flatMap.2 ⟨sequence, hsequence, List.mem_map.2 ⟨offset, ?_, ?_⟩⟩
    · rw [hlength]
      exact List.mem_range.2 hoffset
    · rw [← List.rotate_eq_drop_append_take (hlength ▸ hoffset.le), List.map_rotate]
  -- every variant is a writing of the ring
  have hwriting : ∀ variant ∈ variants,
      codeUnits (canonicalBidirectionalCyclicKey tokens) ≤ codeUnits variant := by
    intro variant hmem
    obtain ⟨sequence, hsequence, hmem⟩ := List.mem_flatMap.1 hmem
    obtain ⟨offset, hoffset, rfl⟩ := List.mem_map.1 hmem
    rw [← List.rotate_eq_drop_append_take (List.mem_range.1 hoffset).le, List.map_rotate]
    apply hleast
    rcases List.mem_pair.1 hsequence with rfl | rfl
    · exact .inl (List.IsRotated.forall _ _)
    · rw [List.map_reverse]
      exact .inr (List.IsRotated.forall _ _)
  -- and the least writing is a variant
  have hmem : canonicalBidirectionalCyclicKey tokens ∈ variants := by
    have hrotated : ∀ sequence ∈ [points, points.reverse],
        words ~r sequence.map (numberPointKey text) →
          canonicalBidirectionalCyclicKey tokens ∈ variants := by
      intro sequence hsequence hwords
      obtain ⟨n, rfl⟩ := hwords.symm
      rw [hkey, ← List.rotate_mod]
      refine hvariant sequence hsequence _ ?_
      have hlength : (sequence.map (numberPointKey text)).length = points.length := by
        rw [List.length_map]
        rcases List.mem_pair.1 hsequence with rfl | rfl
        · rfl
        · exact List.length_reverse
      rw [hlength]
      exact Nat.mod_lt _ hpos
    rcases hwords with hwords | hwords
    · exact hrotated points List.mem_cons_self hwords
    · refine hrotated points.reverse (by simp) ?_
      rwa [List.map_reverse]
  obtain ⟨least, hleastMem, hhead, hle⟩ := exists_least_key (List.ne_nil_of_mem hmem)
  rw [hhead]
  exact codeUnits_injective (le_antisymm (hle _ hmem) (hwriting least hleastMem))

section Law

variable {text : Number → String} (htext : KeyText text)

include htext

theorem KeyText.notMem {symbol : Char} (hletter : symbol.isAlphanum = false)
    (hsymbol : symbol ∉ ['.', '-', '+']) (value : Number) : symbol ∉ (text value).toList := by
  intro hmem
  rcases htext.symbols value symbol hmem with h | h
  · rw [hletter] at h
    cases h
  · exact hsymbol h

theorem notMem_numberPointKey {symbol : Char} (hletter : symbol.isAlphanum = false)
    (hsymbol : symbol ∉ ['.', '-', '+']) (hcomma : symbol ≠ ',') (point : NumberGridPoint) :
    symbol ∉ (numberPointKey text point).toList := by
  unfold numberPointKey
  simp only [String.toList_append, List.mem_append, not_or]
  refine ⟨⟨htext.notMem hletter hsymbol _, ?_⟩, htext.notMem hletter hsymbol _⟩
  exact fun hmem => hcomma (List.mem_singleton.1 hmem)

theorem numberPointKey_injective : Function.Injective (numberPointKey text) := by
  intro first second h
  unfold numberPointKey at h
  rw [String.append_assoc, String.append_assoc] at h
  obtain ⟨hx, hy⟩ := SeparatedText.append_inj (c := ',') rfl
    (htext.notMem (by decide) (by decide) _) (htext.notMem (by decide) (by decide) _) h
  obtain ⟨x, y⟩ := first
  obtain ⟨x', y'⟩ := second
  rw [NumberGridPoint.mk.injEq]
  exact ⟨htext.injective hx, htext.injective hy⟩

/-- **The text of a ring names it up to start vertex and winding.** -/
theorem canonicalPointRing_eq_iff {points points' : List NumberGridPoint} :
    canonicalPointRing text points = canonicalPointRing text points' ↔ SameRing points points' := by
  have hclean : ∀ points : List NumberGridPoint,
      SeparatorFree (points.map (numberPointKey text)) := by
    intro points token htoken
    obtain ⟨point, _, rfl⟩ := List.mem_map.1 htoken
    refine ⟨fun hempty => ?_, notMem_numberPointKey htext (by decide) (by decide) (by decide) point⟩
    have htoken := congrArg String.toList hempty
    unfold numberPointKey at htoken
    simp at htoken
  rw [canonicalPointRing_eq, canonicalPointRing_eq,
    canonicalBidirectionalCyclicKey_eq_iff (hclean points) (hclean points')]
  exact ⟨sameRing_of_map (numberPointKey_injective htext), SameRing.map (numberPointKey text)⟩

theorem notMem_canonicalPointRing {symbol : Char} (hletter : symbol.isAlphanum = false)
    (hsymbol : symbol ∉ ['.', '-', '+']) (hcomma : symbol ≠ ',') (hsemicolon : symbol ≠ ';')
    (points : List NumberGridPoint) : symbol ∉ (canonicalPointRing text points).toList := by
  rw [canonicalPointRing_eq]
  refine notMem_canonicalBidirectionalCyclicKey hsemicolon fun token htoken => ?_
  obtain ⟨point, _, rfl⟩ := List.mem_map.1 htoken
  exact notMem_numberPointKey htext hletter hsymbol hcomma point

end Law

/-! ## §5  Offsets -/

theorem abs_min_le {a b bound : ℤ} (ha : |a| ≤ bound) (hb : |b| ≤ bound) :
    |min a b| ≤ bound := by
  rcases min_choice a b with h | h
  · rwa [h]
  · rwa [h]

/-- The least of safe integers, folded as numbers. -/
theorem foldl_min_ofInt {f : SafeGridPoint → ℤ} (hf : ∀ point, |f point| ≤ maxSafeInteger)
    (ring : List SafeGridPoint) : ∀ n : ℤ, |n| ≤ maxSafeInteger →
      ring.foldl (fun least point => least.min (Number.ofInt (f point))) (Number.ofInt n) =
        Number.ofInt (ring.foldl (fun least point => min least (f point)) n) := by
  induction ring with
  | nil => exact fun _ _ => rfl
  | cons point ring ih =>
      intro n hn
      rw [List.foldl_cons, List.foldl_cons,
        Number.min_ofInt (abs_le_of_safe hn) (abs_le_of_safe (hf point))]
      exact ih _ (abs_min_le hn (hf point))

/-- The least coordinates of the ring of a piece. -/
def ringMinimum (ring : List SafeGridPoint) : NumberGridPoint :=
  gridMinimum (ring.map SafeGridPoint.toNumber)

theorem ringMinimum_eq {ring : List SafeGridPoint} (hne : ring ≠ []) :
    ringMinimum ring = ⟨Number.ofInt (ringCorner ring).x, Number.ofInt (ringCorner ring).y⟩ := by
  obtain ⟨first, rest, rfl⟩ := List.exists_cons_of_ne_nil hne
  unfold ringMinimum gridMinimum ringCorner lowerLeft
  rw [List.map_cons, List.map_cons]
  simp only [List.foldl_cons, List.foldl_map]
  have hx := foldl_min_ofInt (f := fun point => point.x) SafeGridPoint.x_safe rest first.x
    first.x_safe
  have hy := foldl_min_ofInt (f := fun point => point.y) SafeGridPoint.y_safe rest first.y
    first.y_safe
  rw [NumberGridPoint.mk.injEq]
  constructor
  · rw [← hx, ← Number.infinity_min_ofInt (abs_le_of_safe first.x_safe)]
    rfl
  · rw [← hy, ← Number.infinity_min_ofInt (abs_le_of_safe first.y_safe)]
    rfl

/-- The corner of a ring has safe coordinates. -/
theorem ringCorner_safe (ring : List SafeGridPoint) :
    |(ringCorner ring).x| ≤ maxSafeInteger ∧ |(ringCorner ring).y| ≤ maxSafeInteger := by
  by_cases hne : ring.map SafeGridPoint.toCanonicalGridPoint = []
  · unfold ringCorner
    rw [hne]
    exact ⟨by decide, by decide⟩
  · obtain ⟨⟨_, point, hpoint, hx⟩, ⟨_, point', hpoint', hy⟩⟩ := lowerLeft_spec hne
    obtain ⟨safe, _, rfl⟩ := List.mem_map.1 hpoint
    obtain ⟨safe', _, rfl⟩ := List.mem_map.1 hpoint'
    unfold ringCorner
    rw [← hx, ← hy]
    exact ⟨safe.x_safe, safe'.y_safe⟩

/-- The offset of a point from a corner. -/
def offsetFrom (corner point : CanonicalGridPoint) : CanonicalGridPoint :=
  translateGridPoint (-corner.x) (-corner.y) point

theorem sub_ringMinimum {ring : List SafeGridPoint} (hne : ring ≠ []) (point : SafeGridPoint) :
    point.toNumber.sub (ringMinimum ring) =
      numberPoint (offsetFrom (ringCorner ring) point.toCanonicalGridPoint) := by
  obtain ⟨hx, hy⟩ := ringCorner_safe ring
  rw [ringMinimum_eq hne]
  unfold NumberGridPoint.sub SafeGridPoint.toNumber numberPoint offsetFrom translateGridPoint
  dsimp only
  rw [Number.sub_ofInt (abs_le_of_safe point.x_safe) (abs_le_of_safe hx),
    Number.sub_ofInt (abs_le_of_safe point.y_safe) (abs_le_of_safe hy),
    sub_eq_add_neg, sub_eq_add_neg]

/-- The integer point of a point with integral coordinates. -/
def wholePoint (point : NumberGridPoint) : CanonicalGridPoint :=
  ⟨whole point.x, whole point.y⟩
where
  whole : Number → ℤ
    | .finite value _ => value.num
    | _ => 0

theorem wholePoint_numberPoint {point : CanonicalGridPoint} (hx : Representable (point.x : ℚ))
    (hy : Representable (point.y : ℚ)) : wholePoint (numberPoint point) = point := by
  unfold wholePoint numberPoint Number.ofInt
  rw [round_eq_finite hx, round_eq_finite hy]
  rfl

namespace GridPiece

/-- The ring as it is written. -/
def normalized (piece : GridPiece) : List NumberGridPoint :=
  (piece.ring.map SafeGridPoint.toNumber).map (·.sub (ringMinimum piece.ring))

/-- The reference point as it is written. -/
def referenceOffset (piece : GridPiece) : NumberGridPoint :=
  piece.reference.toNumber.sub (ringMinimum piece.ring)

theorem normalized_eq {piece : GridPiece} (hne : piece.ring ≠ []) :
    piece.normalized =
      (piece.path.map (offsetFrom (ringCorner piece.ring))).map numberPoint := by
  unfold normalized path
  rw [List.map_map, List.map_map, List.map_map]
  exact List.map_congr_left fun point _ => sub_ringMinimum hne point

/-- Offsets can be read back. -/
theorem wholePoint_offset (piece : GridPiece) {point : SafeGridPoint}
    (hpoint : point ∈ piece.reference :: piece.ring) :
    wholePoint (numberPoint (offsetFrom (ringCorner piece.ring) point.toCanonicalGridPoint)) =
      offsetFrom (ringCorner piece.ring) point.toCanonicalGridPoint := by
  obtain ⟨hx, hy⟩ := piece.offsets point hpoint
  rw [sub_eq_add_neg] at hx hy
  exact wholePoint_numberPoint hx hy

theorem wholePoint_normalized {piece : GridPiece} (hne : piece.ring ≠ []) :
    piece.normalized.map wholePoint = piece.path.map (offsetFrom (ringCorner piece.ring)) := by
  rw [normalized_eq hne]
  unfold path
  simp only [List.map_map]
  refine List.map_congr_left fun point hpoint => ?_
  exact wholePoint_offset piece (List.mem_cons_of_mem _ hpoint)

/-- Moving a ring moves its corner along. -/
theorem ringCorner_of_translated {piece piece' : GridPiece} (hne : piece.ring ≠ []) {dx dy : ℤ}
    (h : SameRing (piece.path.map (translateGridPoint dx dy)) piece'.path) :
    ringCorner piece'.ring = translateGridPoint dx dy (ringCorner piece.ring) := by
  unfold ringCorner
  change lowerLeft piece'.path = translateGridPoint dx dy (lowerLeft piece.path)
  rw [← lowerLeft_perm h.perm, lowerLeft_translated (by simpa [path] using hne)]

/-- An offset does not change when point and corner move together. -/
theorem offsetFrom_translated (dx dy : ℤ) (corner point : CanonicalGridPoint) :
    offsetFrom (translateGridPoint dx dy corner) (translateGridPoint dx dy point) =
      offsetFrom corner point := by
  unfold offsetFrom translateGridPoint
  rw [CanonicalGridPoint.mk.injEq]
  constructor <;> ring

/-- From the corner of one ring to that of the other. -/
theorem translate_offsetFrom (corner corner' point : CanonicalGridPoint) :
    translateGridPoint (corner'.x - corner.x) (corner'.y - corner.y) point =
      translateGridPoint corner'.x corner'.y (offsetFrom corner point) := by
  unfold offsetFrom translateGridPoint
  rw [CanonicalGridPoint.mk.injEq]
  constructor <;> ring

theorem translate_own_offset (corner point : CanonicalGridPoint) :
    translateGridPoint corner.x corner.y (offsetFrom corner point) = point := by
  unfold offsetFrom translateGridPoint
  cases point
  rw [CanonicalGridPoint.mk.injEq]
  constructor <;> ring

/-- **Ring and reference are written the same exactly when one translation takes them to the
other.** -/
theorem written_iff {piece piece' : GridPiece} (hne : piece.ring ≠ []) (hne' : piece'.ring ≠ []) :
    (SameRing piece.normalized piece'.normalized ∧
        piece.referenceOffset = piece'.referenceOffset) ↔
      ∃ dx dy : ℤ, SameRing (piece.path.map (translateGridPoint dx dy)) piece'.path ∧
        translateGridPoint dx dy piece.reference.toCanonicalGridPoint =
          piece'.reference.toCanonicalGridPoint := by
  have hreference : ∀ {piece : GridPiece}, piece.ring ≠ [] → piece.referenceOffset =
      numberPoint (offsetFrom (ringCorner piece.ring) piece.reference.toCanonicalGridPoint) :=
    fun hne => sub_ringMinimum hne _
  constructor
  · rintro ⟨hring, hoffset⟩
    have hwhole := hring.map wholePoint
    rw [wholePoint_normalized hne, wholePoint_normalized hne'] at hwhole
    rw [hreference hne, hreference hne'] at hoffset
    have hoffset := congrArg wholePoint hoffset
    rw [wholePoint_offset piece List.mem_cons_self,
      wholePoint_offset piece' List.mem_cons_self] at hoffset
    set corner := ringCorner piece.ring
    set corner' := ringCorner piece'.ring
    refine ⟨corner'.x - corner.x, corner'.y - corner.y, ?_, ?_⟩
    · have hmoved := hwhole.map (translateGridPoint corner'.x corner'.y)
      rw [List.map_map, List.map_map] at hmoved
      have hown : piece'.path.map (translateGridPoint corner'.x corner'.y ∘ offsetFrom corner') =
          piece'.path := by
        conv_rhs => rw [← List.map_id piece'.path]
        exact List.map_congr_left fun point _ => translate_own_offset corner' point
      rw [hown] at hmoved
      rwa [List.map_congr_left fun point _ => translate_offsetFrom corner corner' point]
    · rw [translate_offsetFrom, hoffset, translate_own_offset]
  · rintro ⟨dx, dy, hring, hmoved⟩
    have hcorner := ringCorner_of_translated hne hring
    rw [normalized_eq hne, normalized_eq hne', hreference hne, hreference hne', ← hmoved, hcorner,
      offsetFrom_translated]
    refine ⟨?_, rfl⟩
    have hoffsets := hring.map
      (offsetFrom (translateGridPoint dx dy (ringCorner piece.ring)))
    have hsame : offsetFrom (translateGridPoint dx dy (ringCorner piece.ring)) ∘
        translateGridPoint dx dy = offsetFrom (ringCorner piece.ring) :=
      funext fun point => offsetFrom_translated dx dy (ringCorner piece.ring) point
    rw [List.map_map, hsame] at hoffsets
    exact hoffsets.map numberPoint

/-- Without vertices the reference point is written as if it had no offset. -/
theorem referenceOffset_of_nil {piece : GridPiece} (h : piece.ring = []) :
    piece.referenceOffset = ⟨.infinity true, .infinity true⟩ := by
  unfold referenceOffset
  rw [h]
  unfold NumberGridPoint.sub SafeGridPoint.toNumber ringMinimum gridMinimum
  dsimp only
  rw [Number.ofInt_eq (abs_le_of_safe piece.reference.x_safe),
    Number.ofInt_eq (abs_le_of_safe piece.reference.y_safe)]
  rfl

theorem written_iff_sameClass (piece piece' : GridPiece) :
    (SameRing piece.normalized piece'.normalized ∧
        piece.referenceOffset = piece'.referenceOffset) ↔
      ∃ dx dy : ℤ, SameRing (piece.path.map (translateGridPoint dx dy)) piece'.path ∧
        translateGridPoint dx dy piece.reference.toCanonicalGridPoint =
          piece'.reference.toCanonicalGridPoint := by
  have hlength : ∀ {α : Type} {ring ring' : List α}, SameRing ring ring' →
      ring.length = ring'.length := fun h => h.perm.length_eq
  by_cases hne : piece.ring = []
  · by_cases hne' : piece'.ring = []
    · -- two pieces without vertices
      have hpath : piece.path = [] := by rw [path, hne, List.map_nil]
      have hpath' : piece'.path = [] := by rw [path, hne', List.map_nil]
      have hnormalized : piece.normalized = [] := by rw [normalized, hne]; rfl
      have hnormalized' : piece'.normalized = [] := by rw [normalized, hne']; rfl
      rw [hpath, hpath', hnormalized, hnormalized', referenceOffset_of_nil hne,
        referenceOffset_of_nil hne']
      refine iff_of_true ⟨.inl (.refl _), rfl⟩
        ⟨piece'.reference.x - piece.reference.x, piece'.reference.y - piece.reference.y,
          .inl (.refl _), ?_⟩
      unfold translateGridPoint
      rw [add_sub_cancel, add_sub_cancel]
    · refine iff_of_false (fun h => hne' ?_) fun ⟨dx, dy, h, _⟩ => hne' ?_
      · have hempty := hlength h.1
        simp only [normalized, hne, List.length_map, List.map_nil, List.length_nil] at hempty
        exact List.length_eq_zero_iff.1 hempty.symm
      · have hempty := hlength h
        simp only [path, hne, List.length_map, List.map_nil, List.length_nil] at hempty
        exact List.length_eq_zero_iff.1 hempty.symm
  · by_cases hne' : piece'.ring = []
    · refine iff_of_false (fun h => hne ?_) fun ⟨dx, dy, h, _⟩ => hne ?_
      · have hempty := hlength h.1
        simp only [normalized, hne', List.length_map, List.map_nil, List.length_nil] at hempty
        exact List.length_eq_zero_iff.1 hempty
      · have hempty := hlength h
        simp only [path, hne', List.length_map, List.map_nil, List.length_nil] at hempty
        exact List.length_eq_zero_iff.1 hempty
    · exact written_iff hne hne'

end GridPiece

/-! ## §6  Transforms -/

theorem transformReasonStr_injective : Function.Injective Caches.transformReasonStr := by
  intro first second h
  cases first <;> cases second <;> first | rfl | exact absurd h (by decide)

/-- Transforms with numbers are ordered. -/
theorem orderOn_compareTransforms : Comparator.OrderOn
    (fun transform : IrregularTransformCandidate Number =>
      transform.index.isNan = false ∧ transform.rotationDeg.isNan = false)
    compareTransforms := by
  refine (Number.orderOn_partialCmp.comap fun _ h => h.1).then <|
    (Number.orderOn_partialCmp.comap fun _ h => h.2).then <|
    (Comparator.OrderOn.of_transCmp (Comparator.transCmp_comap compare _)).then
      (Comparator.OrderOn.of_transCmp (Comparator.transCmp_comap localeCompareKeys _))

theorem eq_of_compareTransforms {first second : IrregularTransformCandidate Number}
    (hfirst : first.index.isNan = false ∧ first.rotationDeg.isNan = false)
    (hsecond : second.index.isNan = false ∧ second.rotationDeg.isNan = false)
    (h : compareTransforms first second = .eq) : first = second := by
  have hplace : ∀ {a b : Number}, a.isNan = false → b.isNan = false →
      (a.partialCmp b).getD .eq = .eq → a = b := by
    intro a b ha hb hab
    rw [Number.partialCmp_eq ha hb] at hab
    exact Number.place_injective (compare_eq_iff_eq.1 hab)
  unfold compareTransforms at h
  rw [Ordering.then_eq_eq, Ordering.then_eq_eq, Ordering.then_eq_eq] at h
  obtain ⟨hindex, hrotation, hmirrored, hreason⟩ := h
  have hindex := hplace hfirst.1 hsecond.1 hindex
  have hrotation := hplace hfirst.2 hsecond.2 hrotation
  have hmirrored : first.mirrored = second.mirrored := by
    have hnat := compare_eq_iff_eq.1 hmirrored
    revert hnat
    cases first.mirrored <;> cases second.mirrored <;> decide
  have hreason := transformReasonStr_injective (eq_of_localeCompareKeys hreason)
  cases first
  cases second
  dsimp only at hindex hrotation hmirrored hreason
  rw [hindex, hrotation, hmirrored, hreason]

theorem notMem_flagText {symbol : Char} (hdigit : symbol.isDigit = false) (flag : Bool) :
    symbol ∉ (flagText flag).toList := by
  intro hmem
  cases flag with
  | false =>
      rw [List.mem_singleton.1 (show symbol ∈ ['0'] from hmem)] at hdigit
      cases hdigit
  | true =>
      rw [List.mem_singleton.1 (show symbol ∈ ['1'] from hmem)] at hdigit
      cases hdigit

theorem flagText_injective : Function.Injective flagText := by
  intro first second h
  cases first <;> cases second <;> first | rfl | exact absurd h (by decide)

section Law

variable {text : Number → String} (htext : KeyText text)

include htext

/-- A transform's text has no comma and no bar. -/
theorem notMem_transformText {symbol : Char} (hletter : symbol.isAlphanum = false)
    (hsymbol : symbol ∉ ['.', '-', '+']) (hcolon : symbol ≠ ':') (hmark : symbol ≠ '_')
    (transform : IrregularTransformCandidate Number) :
    symbol ∉ (transformText text transform).toList := by
  have hdigit : symbol.isDigit = false := by
    cases hsymbol : symbol.isDigit with
    | false => rfl
    | true => simp [Char.isAlphanum, hsymbol] at hletter
  have hreason : symbol ∉ (Caches.transformReasonStr transform.reason).toList := by
    intro hmem
    have hall : ∀ reason, (Caches.transformReasonStr reason).toList.all
        (fun ch => ch.isAlphanum || ch == '_') = true := by
      intro reason
      cases reason <;> decide
    have h := List.all_eq_true.1 (hall transform.reason) symbol hmem
    rw [hletter, Bool.false_or, beq_iff_eq] at h
    exact hmark h
  unfold transformText
  simp only [String.toList_append, List.mem_append, not_or]
  have hseparator : symbol ∉ ":".toList := fun hmem => hcolon (List.mem_singleton.1 hmem)
  exact ⟨⟨⟨⟨⟨⟨htext.notMem hletter hsymbol _, hseparator⟩, htext.notMem hletter hsymbol _⟩,
    hseparator⟩, notMem_flagText hdigit _⟩, hseparator⟩, hreason⟩

theorem transformText_injective : Function.Injective (transformText text) := by
  intro first second h
  unfold transformText at h
  simp only [String.append_assoc] at h
  have hnumber : ∀ value, ':' ∉ (text value).toList :=
    htext.notMem (by decide) (by decide)
  obtain ⟨hindex, h⟩ := SeparatedText.append_inj (c := ':') rfl (hnumber _) (hnumber _) h
  obtain ⟨hrotation, h⟩ := SeparatedText.append_inj (c := ':') rfl (hnumber _) (hnumber _) h
  obtain ⟨hmirrored, hreason⟩ := SeparatedText.append_inj (c := ':') rfl
    (notMem_flagText (by decide) _) (notMem_flagText (by decide) _) h
  have hindex := htext.injective hindex
  have hrotation := htext.injective hrotation
  have hmirrored := flagText_injective hmirrored
  have hreason := transformReasonStr_injective hreason
  cases first
  cases second
  dsimp only at hindex hrotation hmirrored hreason
  rw [hindex, hrotation, hmirrored, hreason]

/-- **The sorted transforms are written the same exactly when they are the same, up to order.** -/
theorem joined_transforms_iff {transforms transforms' : List (IrregularTransformCandidate Number)}
    (hnumeric : ∀ transform ∈ transforms,
      transform.index.isNan = false ∧ transform.rotationDeg.isNan = false) :
    ",".intercalate ((transforms.mergeSort fun first second =>
        compareTransforms first second != .gt).map (transformText text)) =
      ",".intercalate ((transforms'.mergeSort fun first second =>
        compareTransforms first second != .gt).map (transformText text)) ↔
      transforms.Perm transforms' := by
  constructor
  · intro h
    have hword : ∀ transforms : List (IrregularTransformCandidate Number),
        ∀ word ∈ transforms.map (transformText text), ',' ∉ word.toList ∧ word ≠ "" := by
      intro transforms word hword
      obtain ⟨transform, _, rfl⟩ := List.mem_map.1 hword
      refine ⟨notMem_transformText htext (by decide) (by decide) (by decide) (by decide) _,
        fun hempty => ?_⟩
      have hcolon := congrArg String.toList hempty
      unfold transformText at hcolon
      simp at hcolon
    have hsorted := List.map_injective_iff.2 (transformText_injective htext)
      (SeparatedText.intercalate_inj_of_ne_empty (c := ',') rfl (hword _) (hword _) h)
    exact (List.mergeSort_perm _ _).symm.trans
      ((List.Perm.of_eq hsorted).trans (List.mergeSort_perm _ _))
  · intro h
    rw [orderOn_compareTransforms.sort_eq_of_perm hnumeric h fun first hfirst second hsecond =>
      eq_of_compareTransforms (hnumeric first hfirst) (hnumeric second hsecond)]

/-! ## §7  The key names the class -/

omit htext in
theorem intrinsicPreparedPieceClassKey_eq (piece : GridPiece) :
    intrinsicPreparedPieceClassKey text piece.toMirrorablePiece =
      canonicalPointRing text piece.normalized ++ ("@" ++ (text piece.referenceOffset.x ++ ("," ++
        (text piece.referenceOffset.y ++ (":" ++ (flagText piece.allowMirror ++ (":" ++
          ",".intercalate ((piece.transforms.mergeSort fun first second =>
            compareTransforms first second != .gt).map (transformText text))))))))) := by
  unfold intrinsicPreparedPieceClassKey
  rw [piece.ring_onGrid]
  dsimp only
  rw [piece.reference_onGrid]
  simp only [String.append_assoc]
  rfl

/-- **The key of a piece names its class.** -/
theorem classKey_eq_iff (piece piece' : GridPiece) :
    intrinsicPreparedPieceClassKey text piece.toMirrorablePiece =
        intrinsicPreparedPieceClassKey text piece'.toMirrorablePiece ↔
      piece.SameClass piece' := by
  rw [intrinsicPreparedPieceClassKey_eq, intrinsicPreparedPieceClassKey_eq]
  unfold GridPiece.SameClass
  rw [← GridPiece.written_iff_sameClass, ← joined_transforms_iff htext piece.numeric]
  constructor
  · intro h
    have hring : ∀ points, '@' ∉ (canonicalPointRing text points).toList :=
      notMem_canonicalPointRing htext (by decide) (by decide) (by decide) (by decide)
    obtain ⟨hring, h⟩ := SeparatedText.append_inj (c := '@') rfl (hring _) (hring _) h
    obtain ⟨hx, h⟩ := SeparatedText.append_inj (c := ',') rfl
      (htext.notMem (by decide) (by decide) _) (htext.notMem (by decide) (by decide) _) h
    obtain ⟨hy, h⟩ := SeparatedText.append_inj (c := ':') rfl
      (htext.notMem (by decide) (by decide) _) (htext.notMem (by decide) (by decide) _) h
    obtain ⟨hmirror, htransforms⟩ := SeparatedText.append_inj (c := ':') rfl
      (notMem_flagText (by decide) _) (notMem_flagText (by decide) _) h
    refine ⟨⟨(canonicalPointRing_eq_iff htext).1 hring, ?_⟩, flagText_injective hmirror,
      htransforms⟩
    rw [show piece.referenceOffset = ⟨piece.referenceOffset.x, piece.referenceOffset.y⟩ from rfl,
      htext.injective hx, htext.injective hy]
  · rintro ⟨⟨hring, hreference⟩, hmirror, htransforms⟩
    rw [(canonicalPointRing_eq_iff htext).2 hring, hreference, hmirror, htransforms]

theorem bar_notMem_classKey (piece : GridPiece) :
    '|' ∉ (intrinsicPreparedPieceClassKey text piece.toMirrorablePiece).toList := by
  have hnumber : ∀ value, '|' ∉ (text value).toList := htext.notMem (by decide) (by decide)
  have htransforms : '|' ∉ (",".intercalate ((piece.transforms.mergeSort fun first second =>
      compareTransforms first second != .gt).map (transformText text))).toList := by
    refine SeparatedText.not_mem_intercalate (by decide) fun word hword => ?_
    obtain ⟨transform, _, rfl⟩ := List.mem_map.1 hword
    exact notMem_transformText htext (by decide) (by decide) (by decide) (by decide) _
  have hring : '|' ∉ (canonicalPointRing text piece.normalized).toList :=
    notMem_canonicalPointRing htext (by decide) (by decide) (by decide) (by decide) _
  have hflag : '|' ∉ (flagText piece.allowMirror).toList := notMem_flagText (by decide) _
  rw [intrinsicPreparedPieceClassKey_eq]
  simp only [String.toList_append, List.mem_append, not_or]
  exact ⟨hring, by decide, hnumber _, by decide, hnumber _, by decide, hflag, by decide,
    htransforms⟩

/-- **The keys are complete invariants.**  Two pieces with exact offsets have one key exactly
when they are of the same class, and two orders of such pieces have one text exactly when they
list the same classes. -/
theorem classKey_complete :
    (∀ piece piece' : GridPiece,
      intrinsicPreparedPieceClassKey text piece.toMirrorablePiece =
          intrinsicPreparedPieceClassKey text piece'.toMirrorablePiece ↔
        piece.SameClass piece') ∧
    ∀ pieces pieces' : List GridPiece,
      intrinsicReconstructionEffectiveOrderKey text
          (pieces.map GridPiece.toMirrorablePiece) =
        intrinsicReconstructionEffectiveOrderKey text
          (pieces'.map GridPiece.toMirrorablePiece) ↔
        List.Forall₂ GridPiece.SameClass pieces pieces' := by
  refine ⟨classKey_eq_iff htext, fun pieces pieces' => ?_⟩
  have hkeys : ∀ pieces : List GridPiece, ∀ key ∈
      (pieces.map GridPiece.toMirrorablePiece).map (intrinsicPreparedPieceClassKey text),
      '|' ∉ key.toList ∧ key ≠ "" := by
    intro pieces key hkey
    rw [List.map_map] at hkey
    obtain ⟨piece, _, rfl⟩ := List.mem_map.1 hkey
    refine ⟨bar_notMem_classKey htext piece, fun hempty => ?_⟩
    have hat := congrArg String.toList hempty
    rw [Function.comp_apply, intrinsicPreparedPieceClassKey_eq] at hat
    simp at hat
  have hforall : List.Forall₂ GridPiece.SameClass pieces pieces' ↔
      (pieces.map GridPiece.toMirrorablePiece).map (intrinsicPreparedPieceClassKey text) =
        (pieces'.map GridPiece.toMirrorablePiece).map (intrinsicPreparedPieceClassKey text) := by
    rw [← List.forall₂_eq_eq_eq, List.forall₂_map_left_iff, List.forall₂_map_right_iff,
      List.forall₂_map_left_iff, List.forall₂_map_right_iff]
    simp only [classKey_eq_iff htext]
  rw [hforall]
  unfold intrinsicReconstructionEffectiveOrderKey
  exact ⟨SeparatedText.intercalate_inj_of_ne_empty (c := '|') rfl (hkeys pieces) (hkeys pieces'),
    fun h => by rw [h]⟩

end Law

/-! ### Triangles -/

/-- Whole numbers by their digits, others with the mark of an exponent before the denominator. -/
def fractionText (value : ℚ) : String :=
  if value.den = 1 then toString value.num
  else toString value.num ++ ("e" ++ toString (value.den : ℤ))

def numberText : Number → String
  | .nan => "NaN"
  | .infinity negative => if negative then "-Infinity" else "Infinity"
  | .finite value _ => fractionText value

theorem mem_fractionText {value : ℚ} {ch : Char} (h : ch ∈ (fractionText value).toList) :
    ch.isDigit = true ∨ ch = '-' ∨ ch = 'e' := by
  have hint : ∀ n : ℤ, ch ∈ (toString n).toList → ch.isDigit = true ∨ ch = '-' ∨ ch = 'e' :=
    fun n hn => (isDigit_of_mem_toString hn).imp_right .inl
  unfold fractionText at h
  split at h
  · exact hint _ h
  · rw [String.toList_append, String.toList_append, List.mem_append, List.mem_append] at h
    rcases h with hnum | he | hden
    · exact hint _ hnum
    · exact .inr (.inr (List.mem_singleton.1 he))
    · exact hint _ hden

theorem fractionText_injective : Function.Injective fractionText := by
  intro value value' h
  have hmark : ∀ n : ℤ, 'e' ∉ (toString n).toList := fun n hn =>
    ne_of_mem_toString hn (by decide) (by decide) rfl
  have hmarked : ∀ n m : ℤ, 'e' ∈ (toString n ++ ("e" ++ toString m)).toList :=
    fun n m => by simp
  unfold fractionText at h
  split at h <;> split at h
  · next hden hden' => exact Rat.ext (toString_int_injective h) (hden.trans hden'.symm)
  · have hmem := hmarked value'.num value'.den
    rw [← h] at hmem
    exact absurd hmem (hmark _)
  · have hmem := hmarked value.num value.den
    rw [h] at hmem
    exact absurd hmem (hmark _)
  · obtain ⟨hnum, hden⟩ := SeparatedText.append_inj (c := 'e') rfl (hmark _) (hmark _) h
    exact Rat.ext (toString_int_injective hnum) (by exact_mod_cast toString_int_injective hden)

theorem keyText_numberText : KeyText numberText where
  symbols value ch h := by
    have hword : ∀ word : String,
        (word.toList.all fun ch => ch.isAlphanum || ['.', '-', '+'].contains ch) = true →
          ∀ ch ∈ word.toList, ch.isAlphanum = true ∨ ch ∈ ['.', '-', '+'] := by
      intro word hall ch hch
      simpa using List.all_eq_true.1 hall ch hch
    cases value with
    | nan => exact hword "NaN" (by decide) ch h
    | infinity negative =>
        cases negative
        · exact hword "Infinity" (by decide) ch h
        · exact hword "-Infinity" (by decide) ch h
    | finite value =>
        rcases mem_fractionText h with hdigit | rfl | rfl
        · exact .inl (by simp [Char.isAlphanum, hdigit])
        · exact .inr (by decide)
        · exact .inl (by decide)
  injective first second h := by
    -- the words have a letter that no fraction has
    have hword : ∀ (value : ℚ) (word : String), 'N' ∈ word.toList ∨ 'I' ∈ word.toList →
        fractionText value ≠ word := by
      rintro value word hletter rfl
      rcases hletter with hletter | hletter
      · exact absurd (mem_fractionText hletter) (by decide)
      · exact absurd (mem_fractionText hletter) (by decide)
    cases first with
    | nan =>
        cases second with
        | nan => rfl
        | infinity negative => cases negative <;> exact absurd h (by decide)
        | finite value => exact absurd h.symm (hword value _ (by decide))
    | infinity negative =>
        cases second with
        | nan => cases negative <;> exact absurd h (by decide)
        | infinity negative' =>
            cases negative <;> cases negative' <;> first | rfl | exact absurd h (by decide)
        | finite value => cases negative <;> exact absurd h.symm (hword value _ (by decide))
    | finite value =>
        cases second with
        | nan => exact absurd h (hword value _ (by decide))
        | infinity negative => cases negative <;> exact absurd h (hword value _ (by decide))
        | finite value' =>
            obtain rfl := fractionText_injective h
            rfl

/-- Numbers are compared by their places. -/
instance decidableEqNumber : DecidableEq Number := fun first second =>
  decidable_of_iff (first.place = second.place) Number.place_injective.eq_iff

theorem numberGridPoint_eq_iff {first second : NumberGridPoint} :
    (first.x = second.x ∧ first.y = second.y) ↔ first = second := by
  cases first
  cases second
  rw [NumberGridPoint.mk.injEq]

instance decidableEqNumberGridPoint : DecidableEq NumberGridPoint := fun first second =>
  decidable_of_iff (first.x = second.x ∧ first.y = second.y) numberGridPoint_eq_iff

/-- A point in whole millimetres. -/
def millimetres (x y : ℤ) : IrregularPoint Number := ⟨.ofInt x, .ofInt y⟩

/-- A piece with the given ring, reference point and transforms. -/
def ringPiece (points : List (IrregularPoint Number)) (reference : IrregularPoint Number)
    (transforms : List (IrregularTransformCandidate Number)) : MirrorablePiece where
  pieceId := none
  sourceId := "triangle"
  collisionGeometry := ⟨"triangle", ⟨points⟩, ⟨points⟩, reference⟩
  transforms := transforms
  allowMirror := true

def unturned : IrregularTransformCandidate Number := ⟨.ofInt 0, .ofInt 0, false, .orthogonal⟩

theorem zero_safe : |(0 : ℤ)| ≤ maxSafeInteger := by
  decide

/-- A triangle with `count` times the same transform. -/
def trianglePiece (count : ℕ) : GridPiece where
  toMirrorablePiece := ringPiece [millimetres 0 0, millimetres 2 0, millimetres 0 1]
    (millimetres 0 0) (List.replicate count unturned)
  ring := [⟨⟨0, 0⟩, zero_safe, zero_safe⟩, ⟨⟨2000, 0⟩, by decide, zero_safe⟩,
    ⟨⟨0, 1000⟩, zero_safe, by decide⟩]
  reference := ⟨⟨0, 0⟩, zero_safe, zero_safe⟩
  ring_onGrid := by
    show [millimetres 0 0, millimetres 2 0, millimetres 0 1].mapM gridCoordinates = _
    decide +kernel
  reference_onGrid := by
    show gridCoordinates (millimetres 0 0) = _
    decide +kernel
  offsets := by
    have hoffset : ∀ n : ℤ, |n| ≤ 2 ^ 53 → Representable (n : ℚ) := fun n => representable_intCast
    intro point hpoint
    refine ⟨hoffset _ ?_, hoffset _ ?_⟩ <;> revert point <;> decide
  numeric := by
    intro transform htransform
    obtain ⟨-, rfl⟩ := List.mem_replicate.1 htransform
    exact ⟨by decide +kernel, by decide +kernel⟩

/-- The triangle a millimetre to the right, the ring read from its second vertex. -/
def movedTrianglePiece : GridPiece where
  toMirrorablePiece := ringPiece [millimetres 3 0, millimetres 1 1, millimetres 1 0]
    (millimetres 1 0) [unturned]
  ring := [⟨⟨3000, 0⟩, by decide, zero_safe⟩, ⟨⟨1000, 1000⟩, by decide, by decide⟩,
    ⟨⟨1000, 0⟩, by decide, zero_safe⟩]
  reference := ⟨⟨1000, 0⟩, by decide, zero_safe⟩
  ring_onGrid := by decide +kernel
  reference_onGrid := by decide +kernel
  offsets := by
    have hoffset : ∀ n : ℤ, |n| ≤ 2 ^ 53 → Representable (n : ℚ) := fun n => representable_intCast
    intro point hpoint
    refine ⟨hoffset _ ?_, hoffset _ ?_⟩ <;> revert point <;> decide
  numeric := by decide +kernel

theorem classKey_complete_triangle :
    intrinsicPreparedPieceClassKey numberText (trianglePiece 1).toMirrorablePiece =
      intrinsicPreparedPieceClassKey numberText movedTrianglePiece.toMirrorablePiece :=
  ((classKey_complete keyText_numberText).1 (trianglePiece 1) movedTrianglePiece).2
    ⟨⟨1000, 0, .inl ⟨1, by decide⟩, by decide⟩, rfl, .refl _⟩

/-- A ring nine million kilometres long. -/
def widePoints (x : Number) : List (IrregularPoint Number) :=
  [millimetres (-9007199254740) 0, ⟨x, .ofInt 0⟩, millimetres 0 1]

def wideRing (x : ℤ) : CanonicalGridPath := [⟨-9007199254740000, 0⟩, ⟨x, 0⟩, ⟨0, 1000⟩]

/-- The key tells a transform listed twice from the same transform listed once, and it does not
see a thousandth of a millimetre at the far end of a wide ring. -/
theorem classKey_repeated_and_wide :
    ((∀ transform, transform ∈ (trianglePiece 1).transforms ↔
        transform ∈ (trianglePiece 2).transforms) ∧
      intrinsicPreparedPieceClassKey numberText (trianglePiece 1).toMirrorablePiece ≠
        intrinsicPreparedPieceClassKey numberText (trianglePiece 2).toMirrorablePiece) ∧
    (widePoints (.ofInt 1)).mapM gridCoordinates = some ((wideRing 1000).map numberPoint) ∧
    (widePoints (Binary64.round (1025 / 1024))).mapM gridCoordinates =
      some ((wideRing 1001).map numberPoint) ∧
    intrinsicPreparedPieceClassKey numberText
        (ringPiece (widePoints (.ofInt 1)) (millimetres 0 0) []) =
      intrinsicPreparedPieceClassKey numberText
        (ringPiece (widePoints (Binary64.round (1025 / 1024))) (millimetres 0 0) []) ∧
    ¬ ∃ dx dy : ℤ, SameRing ((wideRing 1000).map (translateGridPoint dx dy)) (wideRing 1001) := by
  have hnear : (widePoints (.ofInt 1)).mapM gridCoordinates =
      some ((wideRing 1000).map numberPoint) := by decide +kernel
  have hfar : (widePoints (Binary64.round (1025 / 1024))).mapM gridCoordinates =
      some ((wideRing 1001).map numberPoint) := by decide +kernel
  have hminimum : gridMinimum ((wideRing 1000).map numberPoint) =
      gridMinimum ((wideRing 1001).map numberPoint) := by decide +kernel
  have hwritten : ((wideRing 1000).map numberPoint).map
        (·.sub (gridMinimum ((wideRing 1001).map numberPoint))) =
      ((wideRing 1001).map numberPoint).map
        (·.sub (gridMinimum ((wideRing 1001).map numberPoint))) := by decide +kernel
  have horigin : gridCoordinates (millimetres 0 0) = some (numberPoint ⟨0, 0⟩) := by
    decide +kernel
  refine ⟨⟨fun transform => ?_, fun h => ?_⟩, hnear, hfar, ?_, ?_⟩
  · exact ⟨fun h => List.mem_cons_of_mem _ h, fun h =>
      List.mem_replicate.2 ⟨one_ne_zero, (List.mem_replicate.1 h).2⟩⟩
  · have hsame := (classKey_eq_iff keyText_numberText (trianglePiece 1) (trianglePiece 2)).1 h
    exact absurd hsame.2.2.length_eq (by decide)
  · unfold intrinsicPreparedPieceClassKey ringPiece
    dsimp only
    rw [hnear, hfar]
    dsimp only
    rw [hminimum, hwritten, horigin]
  · rintro ⟨dx, dy, h⟩
    have hsum := (h.perm.map CanonicalGridPoint.x).sum_eq
    simp only [wideRing, translateGridPoint, List.map_cons, List.map_nil, List.sum_cons,
      List.sum_nil] at hsum
    omega

end PolygonNesting
