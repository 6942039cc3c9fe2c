import Mathlib.Data.List.GetD
import PolygonNesting.Caches.Key
import PolygonNesting.Canonical.LayoutIdentity
import PolygonNesting.Lib.CyclicReading
import PolygonNesting.Lib.SeparatedText
import PolygonNesting.NfpIfp.BoundaryCore

set_option linter.unusedSectionVars false

/-!
# What the geometry caches are keyed by

The three namespaces of the geometry cache key their values by texts of the
inputs: a relative no-fit polygon by its two rings up to start and winding, inner
fit bounds and transformed rings by everything they were computed from.

Where the numbers have distinct texts, a key gives back what it was made of.
-/

namespace PolygonNesting.Caches

variable {F : Type} [LinearOrder F] [Zero F] [One F] [Add F] [Sub F] [Neg F]
  [Mul F] [Div F] [JsMath F]

/-! ## §1  Digests -/

def foldNegativeZeroKey (value : F) : String := JsMath.numberToJsString value

def pointDigest (point : IrregularPoint F) : String :=
  foldNegativeZeroKey point.x ++ "," ++ foldNegativeZeroKey point.y

/-- The points in order. -/
def polygonDigest (points : List (IrregularPoint F)) : String :=
  ";".intercalate (points.map pointDigest)

def boundsDigest (bounds : IrregularBounds F) : String :=
  ",".intercalate
    ([bounds.minX, bounds.minY, bounds.maxX, bounds.maxY].map foldNegativeZeroKey)

def transformReasonStr : IrregularTransformReason → String
  | .orthogonal => "orthogonal"
  | .edgeAlignment => "edge_alignment"
  | .configured => "configured"

def transformDigest (transform : IrregularTransformCandidate F) : String :=
  "index=" ++ foldNegativeZeroKey transform.index ++
    ",rotation=" ++ foldNegativeZeroKey transform.rotationDeg ++
    ",mirrored=" ++ (if transform.mirrored then "1" else "0") ++
    ",reason=" ++ transformReasonStr transform.reason

def geometrySettingsParts (settings : IrregularGeometrySettings F) : List String :=
  ["flattening-sag=" ++ foldNegativeZeroKey settings.flatteningSagToleranceMm,
    "clearance-margin=" ++ foldNegativeZeroKey settings.clearanceSafetyMarginMm,
    "backend=" ++ settings.geometryBackendId,
    "backend-version=" ++ settings.geometryBackendVersion,
    "offset-policy=clipper2-offset-v3-sharp-miter-scale-1000"]

/-- Once around the ring from a start, forwards for `1` and backwards for `-1`. -/
def cyclicPolygonDigest (points : List (IrregularPoint F)) (startIndex : ℕ)
    (direction : ℤ) : String :=
  ";".intercalate ((List.range points.length).map fun offset : ℕ =>
    pointDigest (pointAt points
      ((startIndex + direction * offset + points.length * 2) % points.length : ℤ).toNat))

/-- The loop of `canonical_polygon_digest`: the first point with the least `(x, y)`. -/
def digestStartIndex (points : List (IrregularPoint F)) : ℕ :=
  (List.range' 1 (points.length - 1)).foldl (fun startIndex index =>
    let candidate := pointAt points index
    let current := pointAt points startIndex
    if candidate.x < current.x ∨ candidate.x = current.x ∧ candidate.y < current.y then index
    else startIndex) 0

def canonicalPolygonDigest (points : List (IrregularPoint F)) : String :=
  if points.isEmpty then ""
  else
    let forward := cyclicPolygonDigest points (digestStartIndex points) 1
    let reverse := cyclicPolygonDigest points (digestStartIndex points) (-1)
    if cmpJsCodeUnits forward reverse = .lt then forward else reverse

/-! ## §2  Keys -/

def nfpGeometryCacheNamespace : String := "pairwise-nfp-relative-v3"
def transformGeometryCacheNamespace : String := "transform-collision-v1"
def ifpGeometryCacheNamespace : String := "sheet-ifp-v1"

/-- `NfpConstructionAlgorithm::as_str`. -/
def constructionAlgorithmStr : NfpConstructionAlgorithm → String
  | .linearEdgeMerge => "linear-edge-merge"
  | .vertexPairHull => "vertex-pair-hull"

structure PreparedPairwiseNfpMovingParts where
  movingPolygonPart : String
  movingTransformPart : String
  settingsParts : List String
  constructionPart : String

def preparePairwiseNfpMovingParts (movingPolygon : List (IrregularPoint F))
    (movingTransform : IrregularTransformCandidate F)
    (settings : IrregularGeometrySettings F)
    (constructionAlgorithm : NfpConstructionAlgorithm) : PreparedPairwiseNfpMovingParts where
  movingPolygonPart := "moving-polygon=" ++ canonicalPolygonDigest movingPolygon
  movingTransformPart := "moving-transform=" ++ transformDigest movingTransform
  settingsParts := geometrySettingsParts settings
  constructionPart := "nfp-construction=" ++ constructionAlgorithmStr constructionAlgorithm

def makePairwiseNfpCacheKeyWithPreparedMoving (prepared : PreparedPairwiseNfpMovingParts)
    (fixedPolygon : List (IrregularPoint F))
    (fixedTransform : IrregularTransformCandidate F) : GeometryCacheKey where
  keyNamespace := nfpGeometryCacheNamespace
  parts :=
    ["fixed-polygon=" ++ canonicalPolygonDigest fixedPolygon,
      prepared.movingPolygonPart,
      "fixed-transform=" ++ transformDigest fixedTransform,
      prepared.movingTransformPart] ++ prepared.settingsParts ++
    ["nfp-algorithm=convex-fixed-plus-negated-moving-relative-v3",
      prepared.constructionPart]

structure InnerFitBoundsKeyInput (F : Type) where
  sheet : SheetSpec F
  moving : TransformedCollisionGeometry F

def makeInnerFitBoundsCacheKey (input : InnerFitBoundsKeyInput F) : GeometryCacheKey where
  keyNamespace := ifpGeometryCacheNamespace
  parts :=
    ["sheet=" ++ foldNegativeZeroKey input.sheet.width ++ "," ++
        foldNegativeZeroKey input.sheet.height ++ "," ++ input.sheet.label,
      "moving-piece=" ++ input.moving.sourcePieceId,
      "moving-transform=" ++ transformDigest input.moving.transform,
      "moving-polygon=" ++ polygonDigest input.moving.polygon.points,
      "ifp-operation=rectangular-sheet-vertex-bounds"]

/-! ## §3  What a text gives back -/

/-- What the keys rely on of the texts of numbers: letters, digits, signs and the
decimal point, and different numbers have different texts. -/
structure KeyNumberText (F : Type) [JsMath F] : Prop where
  symbols : ∀ value : F, ∀ ch ∈ (JsMath.numberToJsString value).toList,
    ch.isAlphanum = true ∨ ch ∈ ['.', '-', '+']
  injective : ∀ first second : F,
    JsMath.numberToJsString first = JsMath.numberToJsString second → first = second

/-- Fractions written with the mark of an exponent between their two integers. -/
@[reducible] def fractionTexts : NumberTexts ℚ :=
  ⟨fun value => toString value.num ++ ("e" ++ toString (value.den : ℤ))⟩

@[reducible] def exactFractions : JsMath ℚ := @exactJsMath ℚ _ _ _ fractionTexts

attribute [local instance] fractionTexts exactFractions in
theorem keyNumberText_fractions : KeyNumberText ℚ where
  symbols value ch h := by
    have hint : ∀ n : ℤ, ch ∈ (toString n).toList →
        ch.isAlphanum = true ∨ ch ∈ ['.', '-', '+'] := by
      intro n hn
      rcases isDigit_of_mem_toString hn with hdigit | rfl
      · exact .inl (by simp [Char.isAlphanum, hdigit])
      · exact .inr (by decide)
    have htext : ch ∈ (toString value.num ++ ("e" ++ toString (value.den : ℤ))).toList := h
    rw [String.toList_append, String.toList_append, List.mem_append, List.mem_append] at htext
    rcases htext with hnum | he | hden
    · exact hint _ hnum
    · rw [List.mem_singleton.mp he]
      exact .inl (by decide)
    · exact hint _ hden
  injective first second h := by
    have hmark : ∀ n : ℤ, 'e' ∉ (toString n).toList := fun n hn =>
      ne_of_mem_toString hn (by decide) (by decide) rfl
    obtain ⟨hnum, hden⟩ := SeparatedText.append_inj (c := 'e') rfl (hmark _) (hmark _) h
    exact Rat.ext (toString_int_injective hnum)
      (by exact_mod_cast toString_int_injective hden)

section Texts

variable (numbers : KeyNumberText F)

include numbers

theorem not_mem_foldNegativeZeroKey (value : F) {c : Char} (hletter : c.isAlphanum = false)
    (hsymbol : c ∉ ['.', '-', '+']) : c ∉ (foldNegativeZeroKey value).toList := by
  intro hc
  rcases numbers.symbols value c hc with h | h
  · rw [hletter] at h
    cases h
  · exact hsymbol h

theorem not_mem_pointDigest (point : IrregularPoint F) {c : Char}
    (hletter : c.isAlphanum = false) (hsymbol : c ∉ ['.', '-', '+']) (hcomma : c ≠ ',') :
    c ∉ (pointDigest point).toList := by
  have hsep : c ∉ (",").toList := fun h => hcomma (List.mem_singleton.mp h)
  unfold pointDigest
  simp only [String.toList_append, List.mem_append, not_or]
  exact ⟨⟨not_mem_foldNegativeZeroKey numbers point.x hletter hsymbol, hsep⟩,
    not_mem_foldNegativeZeroKey numbers point.y hletter hsymbol⟩

/-- What occurs in no number and separates no points occurs in no digest of a ring. -/
theorem not_mem_polygonDigest (points : List (IrregularPoint F)) {c : Char}
    (hletter : c.isAlphanum = false) (hsymbol : c ∉ ['.', '-', '+', ',', ';']) :
    c ∉ (polygonDigest points).toList := by
  simp only [List.mem_cons, List.not_mem_nil, or_false, not_or] at hsymbol
  obtain ⟨hpoint, hminus, hplus, hcomma, hsemicolon⟩ := hsymbol
  refine SeparatedText.not_mem_intercalate
    (fun h => hsemicolon (List.mem_singleton.mp h)) fun word hword => ?_
  obtain ⟨point, -, rfl⟩ := List.mem_map.mp hword
  exact not_mem_pointDigest numbers point hletter
    (by simp [hpoint, hminus, hplus]) hcomma

/-- Two number texts around a comma. -/
theorem number_and_rest_inj {value value' : F} {rest rest' : String}
    (h : foldNegativeZeroKey value ++ ("," ++ rest) =
      foldNegativeZeroKey value' ++ ("," ++ rest')) : value = value' ∧ rest = rest' := by
  obtain ⟨htext, hrest⟩ := SeparatedText.append_inj (c := ',') rfl
    (not_mem_foldNegativeZeroKey numbers value rfl (by decide))
    (not_mem_foldNegativeZeroKey numbers value' rfl (by decide)) h
  exact ⟨numbers.injective _ _ htext, hrest⟩

theorem pointDigest_ne_empty (point : IrregularPoint F) : pointDigest point ≠ "" := by
  intro h
  have htext := congrArg String.toList h
  unfold pointDigest at htext
  simp [String.toList_append] at htext

theorem pointDigest_inj {point point' : IrregularPoint F}
    (h : pointDigest point = pointDigest point') : point = point' := by
  unfold pointDigest at h
  rw [String.append_assoc, String.append_assoc] at h
  obtain ⟨hx, hytext⟩ := number_and_rest_inj numbers h
  have hy := numbers.injective _ _ hytext
  cases point
  cases point'
  rw [IrregularPoint.mk.injEq]
  exact ⟨hx, hy⟩

/-- Equal joined digests are digests of the same points. -/
theorem polygonDigest_inj {points points' : List (IrregularPoint F)}
    (h : polygonDigest points = polygonDigest points') : points = points' := by
  have hwords : ∀ points : List (IrregularPoint F),
      ∀ word ∈ points.map pointDigest, ';' ∉ word.toList ∧ word ≠ "" := by
    intro points word hword
    obtain ⟨p, -, rfl⟩ := List.mem_map.mp hword
    exact ⟨not_mem_pointDigest numbers p rfl (by decide) (by decide),
      pointDigest_ne_empty numbers p⟩
  have hmap := SeparatedText.intercalate_inj_of_ne_empty rfl (hwords points)
    (hwords points') h
  exact List.map_injective_iff.2 (fun _ _ => pointDigest_inj numbers) hmap

theorem boundsDigest_inj {bounds bounds' : IrregularBounds F}
    (h : boundsDigest bounds = boundsDigest bounds') : bounds = bounds' := by
  have hwords : ∀ values : List F,
      ∀ word ∈ values.map foldNegativeZeroKey, ',' ∉ word.toList := by
    intro values word hword
    obtain ⟨value, -, rfl⟩ := List.mem_map.mp hword
    exact not_mem_foldNegativeZeroKey numbers value rfl (by decide)
  have hmap := SeparatedText.intercalate_inj rfl (hwords _) (hwords _) (by simp) (by simp) h
  have hvalues := List.map_injective_iff.2 (fun _ _ => numbers.injective _ _) hmap
  simp only [List.cons.injEq, and_true] at hvalues
  cases bounds
  cases bounds'
  simpa only [IrregularBounds.mk.injEq] using hvalues

theorem geometrySettingsParts_inj {settings settings' : IrregularGeometrySettings F}
    (h : geometrySettingsParts settings = geometrySettingsParts settings') :
    settings = settings' := by
  unfold geometrySettingsParts at h
  simp only [List.cons.injEq, String.append_right_inj, and_true] at h
  obtain ⟨hsag, hmargin, hid, hversion⟩ := h
  have hsageq := numbers.injective _ _ hsag
  have hmargineq := numbers.injective _ _ hmargin
  cases settings
  cases settings'
  rw [IrregularGeometrySettings.mk.injEq]
  exact ⟨hsageq, hmargineq, hid, hversion⟩

end Texts

/-- The digest of a ring is that of one of its readings. -/
theorem cyclicPolygonDigest_forward {points : List (IrregularPoint F)} {start : ℕ} :
    cyclicPolygonDigest points start 1 = polygonDigest (points.rotate start) := by
  unfold cyclicPolygonDigest polygonDigest
  congr 1
  refine List.ext_getElem (by simp) fun k hk _ => ?_
  rw [List.length_map, List.length_range] at hk
  rw [List.getElem_map, List.getElem_map, List.getElem_range, List.getElem_rotate]
  have hindex : (((start : ℤ) + 1 * (k : ℤ) + points.length * 2) % points.length).toNat =
      (k + start) % points.length := by
    rw [one_mul, Int.add_mul_emod_self_left, ← Nat.cast_add, ← Int.natCast_mod,
      Int.toNat_natCast, Nat.add_comm]
  rw [hindex]
  exact congrArg pointDigest (List.getD_eq_getElem _ _ (Nat.mod_lt _ (by omega)))

theorem cyclicPolygonDigest_reverse {points : List (IrregularPoint F)} {start : ℕ} :
    cyclicPolygonDigest points start (-1) =
      polygonDigest (CyclicReading.turnBack (points.rotate start)) := by
  unfold cyclicPolygonDigest polygonDigest
  congr 1
  refine List.ext_getElem (by simp) fun k hk _ => ?_
  rw [List.length_map, List.length_range] at hk
  rw [List.getElem_map, List.getElem_map, List.getElem_range, CyclicReading.getElem_turnBack,
    List.getElem_rotate]
  have hindex : (((start : ℤ) + -1 * (k : ℤ) + points.length * 2) % points.length).toNat =
      ((points.length - k) % points.length + start) % points.length := by
    have hsum : (start : ℤ) + -1 * (k : ℤ) + points.length * 2 =
        ((points.length - k + start : ℕ) : ℤ) + points.length := by
      push_cast [Nat.cast_sub hk.le]
      ring
    rw [hsum, Int.add_emod_right, ← Int.natCast_mod, Int.toNat_natCast, Nat.mod_add_mod]
  simp only [List.length_rotate]
  rw [hindex]
  exact congrArg pointDigest (List.getD_eq_getElem _ _ (Nat.mod_lt _ (by omega)))

/-- The canonical digest is the digest of the ring from some start in some
direction. -/
theorem canonicalPolygonDigest_eq (points : List (IrregularPoint F)) :
    ∃ reading, SameRing reading points ∧
      canonicalPolygonDigest points = polygonDigest reading := by
  unfold canonicalPolygonDigest
  split
  · next hempty =>
    rw [List.isEmpty_iff] at hempty
    subst hempty
    exact ⟨[], .inl (List.IsRotated.refl _), String.intercalate_nil.symm⟩
  · dsimp only
    split
    · exact ⟨_, .inl (List.IsRotated.forall _ _), cyclicPolygonDigest_forward⟩
    · refine ⟨_, .inr ?_, cyclicPolygonDigest_reverse⟩
      exact (CyclicReading.isRotated_turnBack _).trans (List.IsRotated.forall _ _).reverse

theorem constructionAlgorithmStr_inj {algorithm algorithm' : NfpConstructionAlgorithm}
    (h : constructionAlgorithmStr algorithm = constructionAlgorithmStr algorithm') :
    algorithm = algorithm' := by
  revert h
  cases algorithm <;> cases algorithm' <;> decide

section Keys

variable (numbers : KeyNumberText F)

include numbers

/-- **Equal canonical digests are digests of one ring.** -/
theorem sameRing_of_canonicalPolygonDigest {points points' : List (IrregularPoint F)}
    (h : canonicalPolygonDigest points = canonicalPolygonDigest points') :
    SameRing points points' := by
  obtain ⟨reading, hreading, htext⟩ := canonicalPolygonDigest_eq points
  obtain ⟨reading', hreading', htext'⟩ := canonicalPolygonDigest_eq points'
  have hsame : reading = reading' :=
    polygonDigest_inj numbers (by rw [← htext, ← htext', h])
  exact hreading.symm.trans (hsame ▸ hreading')

/-- **The key of a relative no-fit polygon** gives back both rings and the
construction. -/
theorem rings_of_pairwiseNfpKey {fixedPolygon fixedPolygon' movingPolygon movingPolygon' :
      List (IrregularPoint F)}
    {fixedTransform fixedTransform' movingTransform movingTransform' :
      IrregularTransformCandidate F} {settings settings' : IrregularGeometrySettings F}
    {constructionAlgorithm constructionAlgorithm' : NfpConstructionAlgorithm}
    (h : makePairwiseNfpCacheKeyWithPreparedMoving
        (preparePairwiseNfpMovingParts movingPolygon movingTransform settings
          constructionAlgorithm) fixedPolygon fixedTransform =
      makePairwiseNfpCacheKeyWithPreparedMoving
        (preparePairwiseNfpMovingParts movingPolygon' movingTransform' settings'
          constructionAlgorithm') fixedPolygon' fixedTransform') :
    SameRing fixedPolygon fixedPolygon' ∧ SameRing movingPolygon movingPolygon' ∧
      constructionAlgorithm = constructionAlgorithm' := by
  have hparts := congrArg GeometryCacheKey.parts h
  simp only [makePairwiseNfpCacheKeyWithPreparedMoving, preparePairwiseNfpMovingParts,
    geometrySettingsParts, List.cons_append, List.nil_append, List.cons.injEq,
    String.append_right_inj] at hparts
  obtain ⟨hfixedtext, hmovingtext, -, -, -, -, -, -, -, -, hconstruction, -⟩ := hparts
  exact ⟨sameRing_of_canonicalPolygonDigest numbers hfixedtext,
    sameRing_of_canonicalPolygonDigest numbers hmovingtext,
    constructionAlgorithmStr_inj hconstruction⟩

end Keys

section Fractions

attribute [local instance] fractionTexts exactFractions

def plainSettings : IrregularGeometrySettings ℚ := ⟨1, 0, "clipper2", "1"⟩

/-- The first ring from its second corner, the second one backwards. -/
theorem rings_of_pairwiseNfpKey_corners :
    SameRing [⟨0, 0⟩, ⟨2, 0⟩, ⟨0, 1⟩] ([⟨2, 0⟩, ⟨0, 1⟩, ⟨0, 0⟩] : List (IrregularPoint ℚ)) ∧
      SameRing [⟨0, 0⟩, ⟨3, 0⟩, ⟨0, 3⟩] ([⟨0, 3⟩, ⟨3, 0⟩, ⟨0, 0⟩] : List (IrregularPoint ℚ)) ∧
      NfpConstructionAlgorithm.vertexPairHull = .vertexPairHull :=
  @rings_of_pairwiseNfpKey ℚ _ _ _ _ _ _ _ _ _ keyNumberText_fractions _ _ _ _
    ⟨0, 0, false, .configured⟩ ⟨0, 0, false, .configured⟩ ⟨1, 90, true, .configured⟩
    ⟨1, 90, true, .configured⟩ plainSettings plainSettings _ _ (by decide +kernel)

end Fractions

end PolygonNesting.Caches
